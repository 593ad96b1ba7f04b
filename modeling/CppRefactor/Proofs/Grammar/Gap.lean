import CppRefactor.Grammar.Declarations

/-!
Gaps between words. All that lookahead asks of a gap is whether a line break is in it: each guess
says the same of words whose other gaps are closed.
-/

namespace CppRefactor.Grammar

/-- The word with its gap closed, unless a line break is in it. -/
def Word.tight (w : Word) : Word := { w with gap := if w.gap = .newline then .newline else .none }

@[simp] theorem Word.tight_kind (w : Word) : w.tight.kind = w.kind := rfl

@[simp] theorem Word.tight_text (w : Word) : w.tight.text = w.text := rfl

@[simp] theorem Word.tight_gap_beq (w : Word) :
    (w.tight.gap == .newline) = (w.gap == .newline) := by
  obtain ⟨kind, text, gap⟩ := w
  cases gap <;> rfl

/-- Words with their gaps closed where no line break is in them. -/
def tighten (ws : List Word) : List Word := ws.map Word.tight

@[simp] theorem tighten_nil : tighten [] = [] := rfl

@[simp] theorem tighten_cons (w : Word) (ws : List Word) :
    tighten (w :: ws) = w.tight :: tighten ws := rfl

@[simp] theorem length_tighten (ws : List Word) : (tighten ws).length = ws.length :=
  List.length_map _

@[simp] theorem take_tighten (n : Nat) (ws : List Word) :
    (tighten ws).take n = tighten (ws.take n) :=
  List.map_take.symm

@[simp] theorem drop_tighten (n : Nat) (ws : List Word) :
    (tighten ws).drop n = tighten (ws.drop n) :=
  List.map_drop.symm

@[simp] theorem head?_tighten (ws : List Word) : (tighten ws).head? = ws.head?.map Word.tight :=
  List.head?_map

@[simp] theorem getElem?_tighten (ws : List Word) (n : Nat) :
    (tighten ws)[n]? = ws[n]?.map Word.tight :=
  List.getElem?_map

theorem dropWhile_tighten {p : Word → Bool} (hp : ∀ w, p w.tight = p w)
    (ws : List Word) : (tighten ws).dropWhile p = tighten (ws.dropWhile p) := by
  induction ws with
  | nil => rfl
  | cons w ws ih =>
    rw [tighten_cons, List.dropWhile_cons, List.dropWhile_cons, hp, ih]
    split <;> rfl

@[simp] theorem groupLength_tighten (opener closer : Kind) (depth : Nat) (ws : List Word) :
    groupLength opener closer depth (tighten ws) = groupLength opener closer depth ws := by
  induction ws generalizing depth with
  | nil => rfl
  | cons w ws ih => simp only [tighten_cons, groupLength, Word.tight_kind, ih]

@[simp] theorem templateParameterLength_tighten (depth : Nat) (ws : List Word) :
    templateParameterLength depth (tighten ws) = templateParameterLength depth ws := by
  induction ws generalizing depth with
  | nil => rfl
  | cons w ws ih => simp only [tighten_cons, templateParameterLength, Word.tight_kind, ih]

namespace Guess

@[simp] theorem kind?_tighten (ws : List Word) : kind? (tighten ws) = kind? ws := by
  cases ws <;> rfl

@[simp] theorem startsWith_tighten (k : Kind) (ws : List Word) :
    startsWith k (tighten ws) = startsWith k ws := by
  rw [startsWith, kind?_tighten, startsWith]

@[simp] theorem startsWithAny_tighten (ks : List Kind) (ws : List Word) :
    startsWithAny ks (tighten ws) = startsWithAny ks ws := by
  rw [startsWithAny, kind?_tighten, startsWithAny]

@[simp] theorem closeAngles_tighten (angle paren : Nat) (ws : List Word) :
    closeAngles angle paren (tighten ws) = (closeAngles angle paren ws).map tighten := by
  induction ws generalizing angle paren with
  | nil => rfl
  | cons w ws ih =>
    simp only [tighten_cons, closeAngles, Word.tight_kind, kind?_tighten, ih]
    split <;> repeat' split
    all_goals rfl

@[simp] theorem behindArguments_tighten (ws : List Word) :
    behindArguments (tighten ws) = (behindArguments ws).map tighten := by
  simp only [behindArguments, startsWith_tighten, closeAngles_tighten]
  split <;> rfl

@[simp] theorem closeParens_tighten (depth : Nat) (ws : List Word) :
    closeParens depth (tighten ws) = (closeParens depth ws).map tighten := by
  induction ws generalizing depth with
  | nil => rfl
  | cons w ws ih =>
    simp only [tighten_cons, closeParens, Word.tight_kind, ih]
    split <;> try split
    all_goals rfl

@[simp] theorem behindParens_tighten (ws : List Word) :
    behindParens (tighten ws) = (behindParens ws).map tighten := by
  simp only [behindParens, startsWith_tighten, closeParens_tighten]
  split <;> rfl

theorem getD_map_tighten (o : Option (List Word)) (ws : List Word) :
    (o.map tighten).getD (tighten ws) = tighten (o.getD ws) := by
  cases o <;> rfl

/-- What goes on with a name behind a segment does so whatever its gap. -/
theorem goOn_tighten {next : List Word → Option (List Word)}
    (hn : ∀ ws, next (tighten ws) = (next ws).map tighten) (ws : List Word) :
    (match tighten ws with
      | ⟨.colonColon, _, _⟩ :: rest =>
        if (kind? rest).any startsSegment then next rest else some (tighten ws)
      | _ => some (tighten ws)) =
    (match ws with
      | ⟨.colonColon, _, _⟩ :: rest =>
        if (kind? rest).any startsSegment then next rest else some ws
      | _ => some ws).map tighten := by
  cases ws with
  | nil => rfl
  | cons w ws =>
    obtain ⟨k, text, gap⟩ := w
    by_cases hk : k = .colonColon
    · subst hk
      simp only [tighten_cons, Word.tight, kind?_tighten, hn]
      split <;> rfl
    · simp only [tighten_cons, Word.tight]
      split <;> simp_all [Word.tight]

@[simp] theorem behindSegments_tighten (n : Nat) (ws : List Word) :
    behindSegments n (tighten ws) = (behindSegments n ws).map tighten := by
  induction n generalizing ws with
  | zero => rfl
  | succ n ih =>
    have hif : (if startsWith .templateKw ws then (tighten ws).drop 1 else tighten ws) =
        tighten (if startsWith .templateKw ws then ws.drop 1 else ws) := by
      rw [drop_tighten]
      split <;> rfl
    simp only [behindSegments, startsWith_tighten, hif]
    generalize (if startsWith .templateKw ws then ws.drop 1 else ws) = vs
    have hgo (us : List Word) := goOn_tighten ih ((behindArguments us).getD us)
    simp only [← getD_map_tighten, ← behindArguments_tighten] at hgo
    rw [eq_comm]
    split
    · exact (hgo _).symm
    · exact (hgo _).symm
    · rfl
    · rename_i hident htilde hoperator
      split
      · rename_i h
        obtain ⟨⟨k, _, _⟩, us, rfl, hw, -⟩ := List.map_eq_cons_iff.mp h
        cases hw
        exact (hident _ _ _ rfl).elim
      · rename_i h
        obtain ⟨⟨k, _, _⟩, us, rfl, hw, hus⟩ := List.map_eq_cons_iff.mp h
        obtain ⟨⟨k', _, _⟩, us, rfl, hw', -⟩ := List.map_eq_cons_iff.mp hus
        cases hw
        cases hw'
        exact (htilde _ _ _ _ _ rfl).elim
      · rename_i h
        obtain ⟨⟨k, _, _⟩, us, rfl, hw, -⟩ := List.map_eq_cons_iff.mp h
        cases hw
        exact (hoperator _ _ _ rfl).elim
      · rfl

@[simp] theorem behindName_tighten (ws : List Word) :
    behindName (tighten ws) = (behindName ws).map tighten := by
  simp only [behindName, startsWith_tighten, length_tighten, drop_tighten]
  split <;> exact behindSegments_tighten _ _

@[simp] theorem segments_tighten (angle : Nat) (tilde : Bool) (ws : List Word) :
    segments angle tilde (tighten ws) = segments angle tilde ws := by
  induction ws generalizing angle tilde with
  | nil => rfl
  | cons w ws ih => simp only [tighten_cons, segments, Word.tight_kind, Word.tight_text, ih]

@[simp] theorem startsConstructor_tighten (place : Place) (ws : List Word) :
    startsConstructor place (tighten ws) = startsConstructor place ws := by
  simp only [startsConstructor, take_tighten, startsWithAny_tighten, behindName_tighten]
  cases behindName (ws.take window) with
  | none => rfl
  | some rest =>
    simp only [Option.map_some, length_tighten, segments_tighten, startsWith_tighten]

theorem ite_tighten (b : Bool) (us vs : List Word) :
    (if b = true then tighten us else tighten vs) = tighten (if b = true then us else vs) := by
  cases b <;> rfl

/-- A guess that is only made where something was found to stand behind. -/
theorem ifSome_tighten {f : List Word → Bool} (hf : ∀ ws, f (tighten ws) = f ws)
    (o : Option (List Word)) :
    (match o.map tighten with
      | none => false
      | some ws => f ws) =
    (match o with
      | none => false
      | some ws => f ws) := by
  cases o with
  | none => rfl
  | some ws => exact hf ws

/-- Behind a type, and perhaps behind a pointer, a name is declared. -/
def declaresBehind (ws : List Word) : Bool :=
  let ws := ws.dropWhile (isPointerPart ·.kind)
  let ws := if startsWith .ellipsis ws then ws.drop 1 else ws
  startsWith .ident ws && (kind? (ws.drop 1)).any followsDeclared

theorem declaresBehind_tighten (ws : List Word) :
    declaresBehind (tighten ws) = declaresBehind ws := by
  simp only [declaresBehind]
  rw [dropWhile_tighten fun _ => rfl]
  simp only [startsWith_tighten, drop_tighten, ite_tighten, kind?_tighten]

@[simp] theorem startsDeclaration_tighten (ws : List Word) :
    startsDeclaration (tighten ws) = startsDeclaration ws := by
  have htail := ifSome_tighten declaresBehind_tighten
  simp only [startsDeclaration, take_tighten]
  rw [dropWhile_tighten fun _ => rfl]
  cases (ws.take window).dropWhile (·.kind.isDeclModifier) with
  | nil => rfl
  | cons w next =>
    obtain ⟨k, text, gap⟩ := w
    have hname : behindName (tighten (⟨k, text, gap⟩ :: next)) = _ := behindName_tighten _
    rw [tighten_cons] at hname
    dsimp only [tighten_cons, Word.tight_kind, List.length_cons]
    simp only [startsWith_tighten, length_tighten, behindParens_tighten, hname]
    congr 3
    by_cases hk : k = .decltypeKw
    · subst hk
      exact htail _
    · by_cases hn : k = .ident ∨ k = .colonColon
      · rcases hn with rfl | rfl <;> exact htail _
      · simp [not_or.mp hn]

@[simp] theorem startsParameters_tighten (place : Place) (ws : List Word) :
    startsParameters place (tighten ws) = startsParameters place ws := by
  simp only [startsParameters, take_tighten, drop_tighten, kind?_tighten, behindName_tighten]
  cases behindName ((ws.take window).drop 1) with
  | none => rfl
  | some rest =>
    simp only [Option.map_some]
    rw [dropWhile_tighten fun _ => rfl, startsWith_tighten]

@[simp] theorem skipMarkers_tighten (ws : List Word) :
    skipMarkers (tighten ws) = tighten (skipMarkers ws) := by
  induction ws with
  | nil => rfl
  | cons w ws ih =>
    simp only [tighten_cons, skipMarkers, Word.tight_kind, startsWith_tighten, ih]
    split <;> rfl

@[simp] theorem reachesBody_tighten (ws : List Word) :
    reachesBody (tighten ws) = reachesBody ws := by
  rw [reachesBody, dropWhile_tighten fun _ => rfl, startsWith_tighten, reachesBody]

/-- Drops a word that closes the head of a class. -/
def skipFinal (ws : List Word) : List Word :=
  match ws with
  | w :: next => if w.kind == .ident && isFinal w.text then next else ws
  | [] => []

theorem skipFinal_tighten (ws : List Word) : skipFinal (tighten ws) = tighten (skipFinal ws) := by
  cases ws with
  | nil => rfl
  | cons w next => exact ite_tighten (w.kind == .ident && isFinal w.text) next (w :: next)

/-- A body begins, perhaps behind the bases of a class. -/
def opensBody (ws : List Word) : Bool :=
  match kind? ws with
  | some .lBrace => true
  | some .colon => reachesBody (ws.drop 1)
  | _ => false

theorem opensBody_tighten (ws : List Word) : opensBody (tighten ws) = opensBody ws := by
  simp only [opensBody, kind?_tighten, drop_tighten, reachesBody_tighten]

@[simp] theorem startsTypeDefinition_tighten (ws : List Word) :
    startsTypeDefinition (tighten ws) = startsTypeDefinition ws := by
  have htail := ifSome_tighten (f := fun ws => opensBody (skipFinal ws)) fun ws => by
    rw [skipFinal_tighten, opensBody_tighten]
  simp only [startsTypeDefinition, take_tighten, drop_tighten, startsWithAny_tighten, ite_tighten,
    skipMarkers_tighten, behindName_tighten]
  by_cases hn : startsWithAny [.ident, .colonColon] (skipMarkers
      (if startsWithAny [.classKw, .structKw] ((ws.take window).drop 1) = true then
        ((ws.take window).drop 1).drop 1 else (ws.take window).drop 1)) = true
  · simp only [hn, if_true]
    exact htail _
  · simp only [hn]
    exact htail (some _)

@[simp] theorem startsMacroCall_tighten (place : Place) (ws : List Word) :
    startsMacroCall place (tighten ws) = startsMacroCall place ws := by
  simp only [startsMacroCall, take_tighten]
  cases ws.take 512 with
  | nil => rfl
  | cons name rest =>
    simp only [tighten_cons, Word.tight_text, startsWith_tighten, closeParens_tighten]
    congr 2
    · rcases closeParens 0 rest with _ | _ | ⟨w, ws⟩
      · rfl
      · rfl
      · simp only [Option.map_some, tighten_cons, Word.tight_kind, Word.tight_gap_beq]
    · cases rest with
      | nil => rfl
      | cons w ws => simp only [tighten_cons, Word.tight_kind, Word.tight_gap_beq]

end Guess

end CppRefactor.Grammar
