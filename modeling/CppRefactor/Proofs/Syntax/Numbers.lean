import CppRefactor.Proofs.Syntax.Tokens
import Mathlib.Data.List.TakeWhile

/-!
How far a number reaches. What is behind its end does not matter to it, as long as nothing goes on
there: no digit, no letter, no point behind bare digits.
-/

namespace CppRefactor.Lexer

variable {p : Char → Bool} {c e : Char} {cs t orig rest : List Char} {k l m n : Nat}

/-- Nothing goes on where the text does: no word, no literal, no digits. -/
def Stops (rest : List Char) : Prop :=
  ∀ c ∈ rest.head?, Text.continuesIdentifier c = false ∧ c ≠ '\'' ∧ c ≠ '"'

/-- What ends `n` characters into a text ends there before any rest, if `k` more characters are
left, and before a rest at which nothing goes on. -/
def Ends (k : Nat) (t rest : List Char) (n : Nat) : Prop :=
  n + k ≤ t.length ∨ n ≤ t.length ∧ Stops rest

namespace Ends

theorem le (h : Ends k t rest n) : n ≤ t.length := by
  rcases h with h | h
  · omega
  · exact h.1

theorem mono (h : Ends k t rest n) (hkl : l ≤ k) (hmn : m ≤ n) : Ends l t rest m := by
  refine h.imp (fun h => ?_) fun h => ⟨?_, h.2⟩
  · omega
  · exact Nat.le_trans hmn h.1

theorem drop (h : Ends k t rest (m + n)) : Ends k (t.drop m) rest n := by
  unfold Ends at *
  rw [List.length_drop]
  refine h.imp (fun h => ?_) fun h => ⟨?_, h.2⟩
  · omega
  · have := h.1
    omega

theorem tail (h : Ends k (c :: t) rest (n + 1)) : Ends k t rest n := by
  rw [Nat.add_comm] at h
  exact h.drop

theorem stops (h : Ends k t rest n) (hk : t.length < k) : Stops rest := by
  rcases h with h | h
  · omega
  · exact h.2

/-- Passing over `m` characters that count only together with what is behind them. -/
theorem of_ite {u : List Char} (h : Ends k u rest (if n = 0 then 0 else n + m))
    (hu : u.length = t.length + m) (hk : l + m ≤ k) : Ends l t rest n := by
  unfold Ends at h ⊢
  rw [hu] at h
  refine h.imp (fun h => ?_) fun h => ⟨?_, h.2⟩
  · split at h <;> omega
  · have := h.1
    split at this <;> omega

end Ends

/-- Characters that words and digits are made of. -/
def Wordlike (p : Char → Bool) : Prop :=
  ∀ c, p c = true → Text.continuesIdentifier c = true ∨ c = '\''

theorem Wordlike.stops (hp : Wordlike p) (h : Stops rest) : ∀ c ∈ rest.head?, p c = false := by
  intro c hc
  rw [Bool.eq_false_iff]
  intro hpc
  rcases hp c hpc with hword | hquote
  · rw [(h c hc).1] at hword
    cases hword
  · exact (h c hc).2.1 hquote

theorem of_ascii (p : Char → Bool) (hall : ∀ n ∈ List.range 0x80, p (Char.ofNat n) = true)
    (h : c.toNat < 0x80) : p c = true := by
  have hc := hall c.toNat (List.mem_range.mpr h)
  rwa [Char.ofNat_toNat] at hc

theorem toNat_lt_of_isDigit (h : c.isDigit = true) : c.toNat < 0x80 := by
  simp only [Char.isDigit, Bool.and_eq_true, decide_eq_true_eq, UInt32.le_iff_toNat_le] at h
  exact Nat.lt_of_le_of_lt h.2 (by decide)

theorem wordlike_isDigit : Wordlike Char.isDigit := by
  intro c h
  have hc := of_ascii (fun c => !c.isDigit || Text.continuesIdentifier c) (by decide +kernel)
    (toNat_lt_of_isDigit h)
  simp only [h, Bool.not_true, Bool.false_or] at hc
  exact .inl hc

theorem wordlike_isDigitOrQuote : Wordlike isDigitOrQuote := by
  intro c h
  simp only [isDigitOrQuote, Bool.or_eq_true, beq_iff_eq] at h
  exact h.elim (wordlike_isDigit c) .inr

theorem wordlike_isHexOrQuote : Wordlike isHexOrQuote := by
  intro c h
  rw [isHexOrQuote, Bool.or_assoc, Bool.or_eq_true] at h
  rcases h with h | h
  · exact wordlike_isDigitOrQuote c h
  · have hascii : c.toNat < 0x80 := by
      simp only [Bool.or_eq_true, Bool.and_eq_true, decide_eq_true_eq, Char.le_def,
        UInt32.le_iff_toNat_le] at h
      exact h.elim (fun h => Nat.lt_of_le_of_lt h.2 (by decide))
        fun h => Nat.lt_of_le_of_lt h.2 (by decide)
    have hc := of_ascii (fun c => !('a' ≤ c && c ≤ 'f' || 'A' ≤ c && c ≤ 'F') ||
      Text.continuesIdentifier c) (by decide +kernel) hascii
    simp only [h, Bool.not_true, Bool.false_or] at hc
    exact .inl hc

theorem wordlike_isBinaryOrQuote : Wordlike isBinaryOrQuote := by
  intro c h
  simp only [isBinaryOrQuote, Bool.or_eq_true, beq_iff_eq] at h
  rcases h with (rfl | rfl) | rfl
  · exact .inl (by decide)
  · exact .inl (by decide)
  · exact .inr rfl

theorem wordlike_isIntegerSuffix : Wordlike isIntegerSuffix := by
  intro c h
  have hword : "uUlLzZ".toList.all Text.continuesIdentifier = true := by decide
  exact .inl (List.all_eq_true.mp hword c (List.contains_iff_mem.mp h))

theorem wordlike_isFloatSuffix : Wordlike isFloatSuffix := by
  intro c h
  have hword : "fFlL".toList.all Text.continuesIdentifier = true := by decide
  exact .inl (List.all_eq_true.mp hword c (List.contains_iff_mem.mp h))

theorem run_cons_of_pos (h : p c = true) (cs : List Char) : run p (c :: cs) = run p cs + 1 := by
  simp [run, h]

theorem run_cons_of_neg (h : p c = false) (cs : List Char) : run p (c :: cs) = 0 := by
  simp [run, h]

theorem run_eq_zero (h : ∀ c ∈ cs.head?, p c = false) : run p cs = 0 := by
  cases cs with
  | nil => rfl
  | cons c cs => exact run_cons_of_neg (h c rfl) cs

theorem run_ends (hp : Wordlike p) (h : Ends 1 t rest (run p (t ++ orig))) :
    run p (t ++ rest) = run p (t ++ orig) := by
  induction t with
  | nil =>
    have hzero := Nat.le_zero.mp h.le
    rw [hzero]
    exact run_eq_zero (hp.stops (h.stops (by decide)))
  | cons c t ih =>
    rw [List.cons_append] at h ⊢
    cases hc : p c with
    | true =>
      rw [run_cons_of_pos hc] at h ⊢
      rw [List.cons_append, run_cons_of_pos hc, ih h.tail]
    | false => rw [List.cons_append, run_cons_of_neg hc, run_cons_of_neg hc]

theorem forall_of_length_le_run (h : t.length ≤ run p (t ++ orig)) : ∀ c ∈ t, p c = true := by
  have hstarts : t <+: (t ++ orig).takeWhile p :=
    List.prefix_of_prefix_length_le (List.prefix_append t orig) (List.takeWhile_prefix p) h
  exact fun c hc => List.mem_takeWhile_imp (hstarts.mem hc)

theorem length_le_run (h : ∀ c ∈ t, p c = true) (orig : List Char) :
    t.length ≤ run p (t ++ orig) := by
  unfold run
  rw [List.takeWhile_append_of_pos h, List.length_append]
  exact Nat.le_add_right _ _

theorem run_le_of_stop (h : p e = false) (cs rest : List Char) :
    run p (cs ++ e :: rest) ≤ cs.length := by
  by_contra hlt
  have hlen : (cs ++ [e]).length ≤ run p (cs ++ [e] ++ rest) := by
    rw [List.append_assoc, List.length_append]
    exact Nat.lt_of_not_le hlt
  rw [forall_of_length_le_run hlen e (by simp)] at h
  cases h

theorem drop_append (h : n ≤ t.length) (rest : List Char) :
    (t ++ rest).drop n = t.drop n ++ rest :=
  List.drop_append_of_le_length h

theorem suffixed_ends {isDigit : Char → Bool} (hp : Wordlike isDigit)
    (h : Ends 1 t rest (suffixed isDigit (t ++ orig))) :
    suffixed isDigit (t ++ rest) = suffixed isDigit (t ++ orig) := by
  have hdigits : Ends 1 t rest (run isDigit (t ++ orig)) :=
    h.mono (Nat.le_refl 1) (Nat.le_add_right _ _)
  unfold suffixed at h ⊢
  dsimp only at h ⊢
  rw [run_ends hp hdigits]
  rw [drop_append hdigits.le] at h ⊢
  rw [drop_append hdigits.le, run_ends wordlike_isIntegerSuffix h.drop]

/-- The letter behind a zero that stands for another base than ten. -/
def isBase (c : Char) : Bool := c == 'x' || c == 'X' || c == 'b' || c == 'B'

/-- The digits of a base. -/
def isBaseDigit (b : Char) : Char → Bool :=
  if b == 'x' || b == 'X' then isHexOrQuote else isBinaryOrQuote

theorem wordlike_isBaseDigit (b : Char) : Wordlike (isBaseDigit b) := by
  unfold isBaseDigit
  split
  · exact wordlike_isHexOrQuote
  · exact wordlike_isBinaryOrQuote

theorem integer_base {b : Char} (hb : isBase b = true) (digits : List Char) :
    integer ('0' :: b :: digits) =
      if run (isBaseDigit b) digits = 0 then suffixed isDigitOrQuote ('0' :: b :: digits)
      else 2 + suffixed (isBaseDigit b) digits := by
  simp only [isBase, Bool.or_eq_true, beq_iff_eq] at hb
  rcases hb with ((rfl | rfl) | rfl) | rfl <;>
    simp only [integer, isBaseDigit] <;>
    cases h : run _ digits with
    | zero => simp [h]
    | succ n => simp [h]

theorem integer_decimal (h : c = '0' → ∀ b ∈ cs.head?, isBase b = false) :
    integer (c :: cs) = suffixed isDigitOrQuote (c :: cs) := by
  unfold integer
  split
  · rename_i b digits heq
    obtain ⟨rfl, rfl⟩ := List.cons.inj heq
    have hb := h rfl b rfl
    simp only [isBase, Bool.or_eq_false_iff] at hb
    simp [hb]
  · rfl

theorem suffixed_zero {b : Char} (hb : isBase b = true) (digits : List Char) :
    suffixed isDigitOrQuote ('0' :: b :: digits) = 1 := by
  simp only [isBase, Bool.or_eq_true, beq_iff_eq] at hb
  rcases hb with ((rfl | rfl) | rfl) | rfl <;> rfl

theorem wordlike_isBase : Wordlike isBase := by
  intro c h
  simp only [isBase, Bool.or_eq_true, beq_iff_eq] at h
  rcases h with ((rfl | rfl) | rfl) | rfl <;> exact .inl (by decide)

theorem integer_of_le_one (h : integer (c :: cs) ≤ 1) :
    integer (c :: cs) = suffixed isDigitOrQuote (c :: cs) := by
  by_cases hbase : c = '0' ∧ ∃ b ∈ cs.head?, isBase b = true
  · obtain ⟨rfl, b, hb, hbase⟩ := hbase
    obtain ⟨digits, rfl⟩ := List.head?_eq_some_iff.mp hb
    rw [integer_base hbase] at h ⊢
    split at h
    · rename_i hnone
      exact if_pos hnone
    · omega
  · refine integer_decimal fun hc b hb => ?_
    exact Bool.eq_false_iff.mpr fun hbase' => hbase ⟨hc, b, hb, hbase'⟩

theorem integer_base_ends {b : Char} (hb : isBase b = true)
    (h : Ends 2 ('0' :: b :: t) rest (integer ('0' :: b :: (t ++ orig)))) :
    integer ('0' :: b :: (t ++ rest)) = integer ('0' :: b :: (t ++ orig)) := by
  have hword := wordlike_isBaseDigit b
  rw [integer_base hb] at h ⊢
  rw [integer_base hb]
  by_cases hdigits : run (isBaseDigit b) (t ++ orig) = 0
  · rw [if_pos hdigits, suffixed_zero hb] at h ⊢
    have hends : Ends 1 t rest (run (isBaseDigit b) (t ++ orig)) := by
      rw [hdigits]
      refine h.imp (fun h => ?_) fun h => ⟨Nat.zero_le _, h.2⟩
      simp only [List.length_cons] at h
      omega
    rw [if_pos ((run_ends hword hends).trans hdigits), suffixed_zero hb]
  · rw [if_neg hdigits] at h ⊢
    have hends : Ends 1 t rest (suffixed (isBaseDigit b) (t ++ orig)) :=
      h.drop.mono (by decide) (Nat.le_refl _)
    have hrun := run_ends hword (hends.mono (Nat.le_refl 1) (Nat.le_add_right _ _))
    rw [if_neg (hrun ▸ hdigits), suffixed_ends hword hends]

theorem integer_ends (h : Ends 2 (c :: t) rest (integer (c :: (t ++ orig)))) :
    integer (c :: (t ++ rest)) = integer (c :: (t ++ orig)) := by
  have hdecimal (hn : integer (c :: (t ++ orig)) = suffixed isDigitOrQuote (c :: (t ++ orig)))
      (hrest : c = '0' → ∀ b ∈ (t ++ rest).head?, isBase b = false) :
      integer (c :: (t ++ rest)) = integer (c :: (t ++ orig)) := by
    rw [hn] at h ⊢
    rw [integer_decimal hrest]
    exact suffixed_ends wordlike_isDigitOrQuote (h.mono (by decide) (Nat.le_refl _))
  cases t with
  | nil =>
    exact hdecimal (integer_of_le_one h.le) fun _ => wordlike_isBase.stops (h.stops (by simp))
  | cons b t =>
    by_cases hbase : c = '0' ∧ isBase b = true
    · obtain ⟨rfl, hb⟩ := hbase
      exact integer_base_ends hb h
    · have hnone (ds : List Char) : c = '0' → ∀ d ∈ (b :: t ++ ds).head?, isBase d = false := by
        rintro hc d hd
        obtain rfl : b = d := Option.some.inj hd
        exact Bool.eq_false_iff.mpr fun hb => hbase ⟨hc, hb⟩
      exact hdecimal (integer_decimal (hnone orig)) (hnone rest)

def isExponentMark (c : Char) : Bool := c == 'e' || c == 'E'

def isSign (c : Char) : Bool := c == '+' || c == '-'

theorem wordlike_isExponentMark : Wordlike isExponentMark := by
  intro c h
  simp only [isExponentMark, Bool.or_eq_true, beq_iff_eq] at h
  rcases h with rfl | rfl <;> exact .inl (by decide)

/-- No sign follows a lone exponent mark. -/
def Unsigned (t rest : List Char) : Prop :=
  ∀ e, t = [e] → isExponentMark e = true → ∀ s ∈ rest.head?, isSign s = false

theorem exponent_of_not_mark (h : ∀ e ∈ cs.head?, isExponentMark e = false) :
    exponent cs = 0 := by
  cases cs with
  | nil => rfl
  | cons e cs => exact if_neg (Bool.eq_false_iff.mp (h e rfl))

theorem exponent_sign {s : Char} (he : isExponentMark e = true) (hs : isSign s = true)
    (cs : List Char) :
    exponent (e :: s :: cs) = if run Char.isDigit cs = 0 then 0 else run Char.isDigit cs + 2 := by
  unfold isExponentMark at he
  unfold isSign at hs
  simp only [exponent, he, hs, if_true]
  cases run Char.isDigit cs <;> rfl

theorem exponent_digits (he : isExponentMark e = true) (h : ∀ s ∈ cs.head?, isSign s = false) :
    exponent (e :: cs) = if run Char.isDigit cs = 0 then 0 else run Char.isDigit cs + 1 := by
  unfold isExponentMark at he
  cases cs with
  | nil => simp [exponent, run]
  | cons s cs =>
    have hs := h s rfl
    unfold isSign at hs
    simp only [exponent, he, hs, if_true, Bool.false_eq_true, if_false]
    cases run Char.isDigit (s :: cs) <;> rfl

theorem exponent_eq_zero_or (e : Char) (cs : List Char) :
    exponent (e :: cs) = 0 ∨ 2 ≤ exponent (e :: cs) := by
  cases he : isExponentMark e with
  | false => exact .inl (exponent_of_not_mark fun d hd => Option.some.inj hd ▸ he)
  | true =>
    by_cases hs : ∃ s ∈ cs.head?, isSign s = true
    · obtain ⟨s, hhead, hs⟩ := hs
      obtain ⟨cs, rfl⟩ := List.head?_eq_some_iff.mp hhead
      rw [exponent_sign he hs]
      split <;> omega
    · rw [exponent_digits he fun s hhead => Bool.eq_false_iff.mpr fun hs' => hs ⟨s, hhead, hs'⟩]
      split <;> omega

theorem exponent_ends (h : Ends 3 t rest (exponent (t ++ orig))) (hsign : Unsigned t rest) :
    exponent (t ++ rest) = exponent (t ++ orig) := by
  cases t with
  | nil =>
    rw [Nat.le_zero.mp h.le]
    exact exponent_of_not_mark (wordlike_isExponentMark.stops (h.stops (by decide)))
  | cons e t =>
    cases he : isExponentMark e with
    | false =>
      have hnone (ds : List Char) : exponent (e :: t ++ ds) = 0 :=
        exponent_of_not_mark fun d hd => Option.some.inj hd ▸ he
      rw [hnone, hnone]
    | true =>
      cases t with
      | nil =>
        have hstops : Stops rest := h.stops (by simp)
        have hzero : exponent (e :: orig) = 0 := by
          have hle : exponent (e :: orig) ≤ 1 := h.le
          exact (exponent_eq_zero_or e orig).resolve_right (by omega)
        refine Eq.trans ?_ hzero.symm
        rw [List.singleton_append, exponent_digits he (hsign e rfl he),
          if_pos (run_eq_zero (wordlike_isDigit.stops hstops))]
      | cons s t =>
        cases hs : isSign s with
        | true =>
          simp only [List.cons_append, exponent_sign he hs] at h ⊢
          rw [run_ends wordlike_isDigit (h.of_ite (by simp) (Nat.le_refl 3))]
        | false =>
          have hnone (ds : List Char) : ∀ d ∈ (s :: t ++ ds).head?, isSign d = false :=
            fun d hd => Option.some.inj hd ▸ hs
          have horig := exponent_digits he (hnone orig)
          have hrest := exponent_digits he (hnone rest)
          rw [List.cons_append, horig] at h
          have hends : Ends 1 (s :: t) rest (run Char.isDigit (s :: t ++ orig)) :=
            h.of_ite (by simp) (by decide)
          simp only [List.cons_append] at horig hrest hends ⊢
          rw [horig, hrest]
          rw [← List.cons_append, ← List.cons_append, run_ends wordlike_isDigit hends]

theorem floatSuffix_ends (h : Ends 1 t rest (floatSuffix (t ++ orig))) :
    floatSuffix (t ++ rest) = floatSuffix (t ++ orig) := by
  cases t with
  | nil =>
    rw [Nat.le_zero.mp h.le]
    have hstops := wordlike_isFloatSuffix.stops (h.stops (by decide))
    cases rest with
    | nil => rfl
    | cons c rest => exact if_neg (Bool.eq_false_iff.mp (hstops c rfl))
  | cons c t => rfl

theorem floatTail_ends (h : Ends 3 t rest (floatTail (t ++ orig))) (hsign : Unsigned t rest) :
    floatTail (t ++ rest) = floatTail (t ++ orig) := by
  have hexponent : Ends 3 t rest (exponent (t ++ orig)) :=
    h.mono (Nat.le_refl 3) (Nat.le_add_right _ _)
  unfold floatTail at h ⊢
  dsimp only at h ⊢
  rw [exponent_ends hexponent hsign]
  rw [drop_append hexponent.le] at h ⊢
  rw [drop_append hexponent.le, floatSuffix_ends (h.drop.mono (by decide) (Nat.le_refl _))]

/-- The digits before the point, or before the exponent. -/
def whole (cs : List Char) : Nat := run isDigitOrQuote cs

/-- The length of a floating-point number with `w` digits before what is left. -/
def floatBehind (w : Nat) : List Char → Nat
  | '.' :: fraction =>
    let n := run isDigitOrQuote fraction
    w + 1 + n + floatTail (fraction.drop n)
  | rest => if exponent rest = 0 then 0 else w + floatTail rest

theorem float_eq (cs : List Char) : float cs = floatBehind (whole cs) (cs.drop (whole cs)) := rfl

theorem floatBehind_of_no_point (w : Nat) (h : '.' ∉ cs.head?) :
    floatBehind w cs = if exponent cs = 0 then 0 else w + floatTail cs := by
  unfold floatBehind
  split
  · exact absurd rfl h
  · rfl

theorem floatBehind_eq_zero_or (w : Nat) (cs : List Char) :
    floatBehind w cs = 0 ∨ w < floatBehind w cs := by
  unfold floatBehind
  split
  · right
    dsimp only
    omega
  · split
    · exact .inl rfl
    · right
      rename_i h
      have : exponent cs ≤ floatTail cs := Nat.le_add_right _ _
      omega

theorem floatBehind_ends {w : Nat} (hn : floatBehind w (t ++ orig) ≤ w + n) (h : Ends 3 t rest n)
    (hpoint : t = [] → '.' ∉ rest.head?) (hsign : ∀ m ≤ n, Unsigned (t.drop m) rest) :
    floatBehind w (t ++ rest) = floatBehind w (t ++ orig) := by
  cases t with
  | nil =>
    obtain rfl : n = 0 := Nat.le_zero.mp h.le
    have hzero := (floatBehind_eq_zero_or w orig).resolve_right (Nat.not_lt.mpr hn)
    have hstops := wordlike_isExponentMark.stops (h.stops (by decide))
    rw [List.nil_append, List.nil_append, hzero, floatBehind_of_no_point w (hpoint rfl),
      exponent_of_not_mark hstops, if_pos rfl]
  | cons c t =>
    by_cases hc : c = '.'
    · subst hc
      simp only [List.cons_append, floatBehind] at hn ⊢
      have hends : Ends 3 t rest
          (run isDigitOrQuote (t ++ orig) +
            floatTail ((t ++ orig).drop (run isDigitOrQuote (t ++ orig)))) :=
        (h.mono (Nat.le_refl 3) (by omega)).tail
      have hdigits : Ends 1 t rest (run isDigitOrQuote (t ++ orig)) :=
        hends.mono (by decide) (Nat.le_add_right _ _)
      have hunsigned : Unsigned (t.drop (run isDigitOrQuote (t ++ orig))) rest :=
        hsign (run isDigitOrQuote (t ++ orig) + 1) (by omega)
      rw [run_ends wordlike_isDigitOrQuote hdigits]
      rw [drop_append hdigits.le] at hends ⊢
      rw [drop_append hdigits.le, floatTail_ends hends.drop hunsigned]
    · have hplain (ds : List Char) : '.' ∉ (c :: t ++ ds).head? :=
        fun hd => hc (Option.some.inj hd)
      have hunsigned : Unsigned (c :: t) rest := hsign 0 (Nat.zero_le n)
      rw [floatBehind_of_no_point w (hplain orig)] at hn ⊢
      rw [floatBehind_of_no_point w (hplain rest)]
      by_cases hexponent : exponent (c :: t ++ orig) = 0
      · have hsame := exponent_ends (hexponent ▸ h.mono (Nat.le_refl 3) (Nat.zero_le n)) hunsigned
        rw [hsame, if_pos hexponent, if_pos hexponent]
      · rw [if_neg hexponent] at hn
        have htail : Ends 3 (c :: t) rest (floatTail (c :: t ++ orig)) :=
          h.mono (Nat.le_refl 3) (Nat.le_of_add_le_add_left hn)
        have hsame := exponent_ends (htail.mono (Nat.le_refl 3) (Nat.le_add_right _ _)) hunsigned
        rw [hsame, if_neg hexponent, if_neg hexponent, floatTail_ends htail hunsigned]

theorem length_lt_float_point (h : ∀ c ∈ t, isDigitOrQuote c = true) (fraction : List Char) :
    t.length < float (t ++ '.' :: fraction) := by
  have hwhole : whole (t ++ '.' :: fraction) = t.length :=
    Nat.le_antisymm (run_le_of_stop rfl t fraction) (length_le_run h _)
  rw [float_eq, hwhole, List.drop_left, floatBehind]
  omega

theorem one_lt_float_point {d : Char} (hd : d.isDigit = true) (cs : List Char) :
    1 < float ('.' :: d :: cs) := by
  have hdigit : isDigitOrQuote d = true := by simp [isDigitOrQuote, hd]
  have hwhole : whole ('.' :: d :: cs) = 0 := rfl
  rw [float_eq, hwhole, List.drop_zero, floatBehind, run_cons_of_pos hdigit]
  omega

/-- No point follows bare digits, and no sign a lone exponent mark. -/
structure Parted (t rest : List Char) (n : Nat) : Prop where
  point : (∀ c ∈ t, isDigitOrQuote c = true) → '.' ∉ rest.head?
  sign : ∀ m ≤ n, Unsigned (t.drop m) rest

theorem float_ends (hwhole : whole (t ++ orig) ≤ n) (hn : float (t ++ orig) ≤ n)
    (h : Ends 3 t rest n) (hparted : Parted t rest n) :
    float (t ++ rest) = float (t ++ orig) := by
  have hle : whole (t ++ orig) ≤ t.length := Nat.le_trans hwhole h.le
  have hrest : whole (t ++ rest) = whole (t ++ orig) :=
    run_ends wordlike_isDigitOrQuote (h.mono (by decide) hwhole)
  have hsplit : whole (t ++ orig) + (n - whole (t ++ orig)) = n := Nat.add_sub_cancel' hwhole
  rw [float_eq, drop_append hle] at hn
  rw [float_eq, float_eq, hrest, drop_append hle, drop_append hle]
  refine floatBehind_ends (hsplit ▸ hn) (hsplit ▸ h).drop (fun hnil => ?_) fun m hm => ?_
  · exact hparted.point (forall_of_length_le_run (List.drop_eq_nil_iff.mp hnil))
  · rw [List.drop_drop]
    exact hparted.sign _ (by omega)

/-- The first two characters tell that the base of a number is another than ten. -/
def Based : List Char → Prop
  | c :: b :: _ => c = '0' ∧ isBase b = true
  | _ => False

theorem float_of_based (h : Based cs) : float cs = 0 := by
  unfold Based at h
  split at h
  · obtain ⟨rfl, hb⟩ := h
    simp only [isBase, Bool.or_eq_true, beq_iff_eq] at hb
    rcases hb with ((rfl | rfl) | rfl) | rfl <;> rfl
  · exact h.elim

theorem Based.append (h : Based t) (rest : List Char) : Based (t ++ rest) := by
  unfold Based at h
  split at h
  · exact h
  · exact h.elim

theorem integer_of_not_based (h : ¬Based (c :: cs)) :
    integer (c :: cs) = suffixed isDigitOrQuote (c :: cs) := by
  refine integer_decimal fun hc b hb => ?_
  obtain ⟨cs, rfl⟩ := List.head?_eq_some_iff.mp hb
  exact Bool.eq_false_iff.mpr fun hbase => h ⟨hc, hbase⟩

theorem whole_le_integer (c : Char) (cs : List Char) : whole (c :: cs) ≤ integer (c :: cs) := by
  by_cases h : Based (c :: cs)
  · cases cs with
    | nil => exact h.elim
    | cons b cs =>
      obtain ⟨rfl, hb⟩ := h
      have hone : whole ('0' :: b :: cs) ≤ suffixed isDigitOrQuote ('0' :: b :: cs) :=
        Nat.le_add_right _ _
      rw [integer_base hb]
      rw [suffixed_zero hb] at hone ⊢
      split <;> omega
  · rw [integer_of_not_based h]
    exact Nat.le_add_right _ _

theorem le_number (cs : List Char) : integer cs ≤ (number cs).2 ∧ float cs ≤ (number cs).2 := by
  unfold number
  dsimp only
  split <;> constructor <;> omega

theorem number_ends (hn : (number (c :: t ++ orig)).2 ≤ n) (h : Ends 3 (c :: t) rest n)
    (hparted : ¬Based (c :: t) → Parted (c :: t) rest n) :
    number (c :: t ++ rest) = number (c :: t ++ orig) := by
  obtain ⟨hi, hf⟩ := le_number (c :: t ++ orig)
  have hinteger : integer (c :: t ++ rest) = integer (c :: t ++ orig) :=
    integer_ends (h.mono (by decide) (Nat.le_trans hi hn))
  have hfloat : float (c :: t ++ rest) = float (c :: t ++ orig) := by
    by_cases hbased : Based (c :: t)
    · rw [float_of_based (hbased.append rest), float_of_based (hbased.append orig)]
    · refine float_ends ?_ (Nat.le_trans hf hn) h (hparted hbased)
      exact Nat.le_trans (whole_le_integer c (t ++ orig)) (Nat.le_trans hi hn)
  unfold number
  rw [hinteger, hfloat]

theorem isExponentMark_apart (h : isExponentMark e = true) :
    isSign e = false ∧ e.isDigit = false ∧ isDigitOrQuote e = false ∧
      isIntegerSuffix e = false ∧ isFloatSuffix e = false ∧ isBase e = false ∧ e ≠ '.' ∧
      e ≠ '0' := by
  simp only [isExponentMark, Bool.or_eq_true, beq_iff_eq] at h
  rcases h with rfl | rfl <;> decide

theorem suffixed_ne (he : isExponentMark e = true) (cs rest : List Char) :
    suffixed isDigitOrQuote (cs ++ e :: rest) ≠ cs.length + 1 := by
  obtain ⟨-, -, hdigit, hsuffix, -⟩ := isExponentMark_apart he
  have hrun := run_le_of_stop hdigit cs rest
  unfold suffixed
  dsimp only
  rw [drop_append hrun]
  have hrest := run_le_of_stop hsuffix
    (cs.drop (run isDigitOrQuote (cs ++ e :: rest))) rest
  rw [List.length_drop] at hrest
  omega

theorem exponent_ne (he : isExponentMark e = true) (cs rest : List Char) :
    exponent (cs ++ e :: rest) ≠ cs.length + 1 := by
  obtain ⟨hsign, hdigit, -⟩ := isExponentMark_apart he
  cases cs with
  | nil =>
    have := exponent_eq_zero_or e rest
    simp only [List.nil_append, List.length_nil]
    omega
  | cons c cs =>
    cases hc : isExponentMark c with
    | false =>
      have hnone (ds : List Char) : exponent (c :: ds) = 0 :=
        exponent_of_not_mark fun d hd => Option.some.inj hd ▸ hc
      rw [List.cons_append, hnone]
      exact nofun
    | true =>
      cases cs with
      | nil =>
        have hnone : ∀ s ∈ (e :: rest).head?, isSign s = false :=
          fun s hs => Option.some.inj hs ▸ hsign
        have hdigits := exponent_digits hc hnone
        rw [if_pos (run_cons_of_neg hdigit rest)] at hdigits
        exact hdigits ▸ nofun
      | cons s cs =>
        cases hs : isSign s with
        | true =>
          have hrun := run_le_of_stop hdigit cs rest
          simp only [List.cons_append, exponent_sign hc hs, List.length_cons]
          split <;> omega
        | false =>
          have hrun := run_le_of_stop hdigit (s :: cs) rest
          have hnone : ∀ d ∈ (s :: cs ++ e :: rest).head?, isSign d = false :=
            fun d hd => Option.some.inj hd ▸ hs
          have hdigits := exponent_digits hc hnone
          simp only [List.cons_append, List.length_cons] at hrun hdigits ⊢
          rw [hdigits]
          split <;> omega

theorem floatTail_ne (he : isExponentMark e = true) (cs rest : List Char) :
    floatTail (cs ++ e :: rest) ≠ cs.length + 1 := by
  obtain ⟨-, -, -, -, hsuffix, -⟩ := isExponentMark_apart he
  have hexponent := exponent_ne he cs rest
  unfold floatTail
  dsimp only
  rcases Nat.lt_trichotomy (exponent (cs ++ e :: rest)) cs.length with hlt | heq | hgt
  · have hone (ds : List Char) : floatSuffix ds ≤ 1 := by
      unfold floatSuffix
      split
      · split <;> omega
      · exact Nat.zero_le 1
    have := hone ((cs ++ e :: rest).drop (exponent (cs ++ e :: rest)))
    omega
  · rw [heq, List.drop_left, floatSuffix, hsuffix]
    simp
  · omega

theorem floatBehind_ne (he : isExponentMark e = true) (w : Nat) (cs rest : List Char) :
    floatBehind w (cs ++ e :: rest) ≠ w + cs.length + 1 := by
  obtain ⟨-, -, hdigit, -, -, -, hpoint, -⟩ := isExponentMark_apart he
  by_cases h : '.' ∈ (cs ++ e :: rest).head?
  · cases cs with
    | nil => exact absurd (Option.some.inj h) hpoint
    | cons c cs =>
      obtain rfl : c = '.' := Option.some.inj h
      have hrun := run_le_of_stop hdigit cs rest
      have htail := floatTail_ne he (cs.drop (run isDigitOrQuote (cs ++ e :: rest))) rest
      rw [List.length_drop] at htail
      simp only [List.cons_append, floatBehind, drop_append hrun, List.length_cons]
      omega
  · have htail := floatTail_ne he cs rest
    rw [floatBehind_of_no_point w h]
    split <;> omega

theorem float_ne (he : isExponentMark e = true) (cs rest : List Char) :
    float (cs ++ e :: rest) ≠ cs.length + 1 := by
  obtain ⟨-, -, hdigit, -⟩ := isExponentMark_apart he
  have hrun : whole (cs ++ e :: rest) ≤ cs.length := run_le_of_stop hdigit cs rest
  have hbehind := floatBehind_ne he (whole (cs ++ e :: rest))
    (cs.drop (whole (cs ++ e :: rest))) rest
  rw [List.length_drop] at hbehind
  rw [float_eq, drop_append hrun]
  omega

theorem number_ne (he : isExponentMark e = true) (h : ¬Based (cs ++ [e])) (rest : List Char) :
    (number (cs ++ e :: rest)).2 ≠ cs.length + 1 := by
  have hfloat := float_ne he cs rest
  have hinteger : integer (cs ++ e :: rest) ≠ cs.length + 1 := by
    obtain ⟨-, -, -, -, -, hbase, -, hzero⟩ := isExponentMark_apart he
    have hsuffixed := suffixed_ne he cs rest
    match cs with
    | [] =>
      have hnone : ¬Based (e :: rest) := by
        cases rest with
        | nil => exact id
        | cons b rest => exact fun hb => hzero hb.1
      rwa [List.nil_append, integer_of_not_based hnone]
    | [c] =>
      have hnone : ¬Based (c :: e :: rest) :=
        fun hb => Bool.false_ne_true (hbase.symm.trans hb.2)
      rwa [List.singleton_append, integer_of_not_based hnone]
    | c :: b :: cs =>
      have hnone : ¬Based (c :: (b :: cs ++ e :: rest)) := h
      rw [List.cons_append] at hsuffixed ⊢
      rwa [integer_of_not_based hnone]
  unfold number
  dsimp only
  split <;> assumption

/-- At the end of what is all a number, no sign follows a lone exponent mark: there is none. -/
theorem unsigned_of_ne (h : ∀ cs e, t = cs ++ [e] → isExponentMark e = false) (m : Nat)
    (rest : List Char) : Unsigned (t.drop m) rest := by
  intro e hdrop he
  have hsplit := List.take_append_drop m t
  rw [hdrop] at hsplit
  exact absurd (he.symm.trans (h _ e hsplit.symm)) (by decide)

theorem unsigned_of_lt (h : m + 3 ≤ t.length) (rest : List Char) : Unsigned (t.drop m) rest := by
  intro e hdrop
  have hlen := congrArg List.length hdrop
  rw [List.length_drop, List.length_singleton] at hlen
  omega

/-- A number that ends where nothing goes on is one before that rest, too. -/
theorem number_stops (hn : (number (c :: t ++ orig)).2 = (c :: t).length) (h : Stops rest)
    (hpoint : (∀ d ∈ c :: t, isDigitOrQuote d = true) → '.' ∉ rest.head?) :
    number (c :: t ++ rest) = number (c :: t ++ orig) := by
  refine number_ends (Nat.le_of_eq hn) (.inr ⟨Nat.le_refl _, h⟩) fun hbased => ⟨hpoint, ?_⟩
  refine fun m _ => unsigned_of_ne (fun cs e hcs => ?_) m rest
  rw [hcs, List.append_assoc, List.length_append] at hn
  rw [hcs] at hbased
  exact Bool.eq_false_iff.mpr fun he => number_ne he hbased orig hn

/-- What is three characters behind a number, or more, does not matter to it. -/
theorem number_local (h : (number (c :: t ++ orig)).2 + 3 ≤ (c :: t).length) :
    number (c :: t ++ rest) = number (c :: t ++ orig) := by
  refine number_ends (Nat.le_refl _) (.inl h) fun _ => ⟨fun hall => ?_, fun m hm => ?_⟩
  · have hwhole := whole_le_integer c (t ++ orig)
    have hle := (le_number (c :: t ++ orig)).1
    have hrun : (c :: t).length ≤ whole (c :: t ++ orig) := length_le_run hall orig
    rw [List.cons_append] at h hle hrun
    omega
  · exact unsigned_of_lt (by omega) rest

theorem not_digits_point (t : List Char) : ¬∀ d ∈ '.' :: t, isDigitOrQuote d = true :=
  fun hall => absurd (hall '.' List.mem_cons_self) (by decide)

theorem float_point_stops (hn : float ('.' :: t ++ orig) = ('.' :: t).length) (h : Stops rest) :
    float ('.' :: t ++ rest) = float ('.' :: t ++ orig) := by
  refine float_ends (Nat.zero_le _) (Nat.le_of_eq hn) (.inr ⟨Nat.le_refl _, h⟩)
    ⟨fun hall => absurd hall (not_digits_point t), fun m _ => ?_⟩
  refine unsigned_of_ne (fun cs e hcs => ?_) m rest
  rw [hcs, List.append_assoc, List.length_append] at hn
  exact Bool.eq_false_iff.mpr fun he => float_ne he cs orig hn

theorem float_point_local (h : float ('.' :: t ++ orig) + 3 ≤ ('.' :: t).length) :
    float ('.' :: t ++ rest) = float ('.' :: t ++ orig) :=
  float_ends (Nat.zero_le _) (Nat.le_refl _) (.inl h)
    ⟨fun hall => absurd hall (not_digits_point t), fun _ hm => unsigned_of_lt (by omega) rest⟩

end CppRefactor.Lexer
