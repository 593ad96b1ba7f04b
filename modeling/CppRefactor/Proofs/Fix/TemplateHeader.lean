import CppRefactor.Fix.TemplateHeader
import CppRefactor.Proofs.Fix.ExtractLiteral
import CppRefactor.Proofs.Syntax.TemplateHeaders

/-!
The names in a template header: one for each parameter, the one that it has or one that tells its
position. No two are alike if no two written ones are, and none is one that a parameter without a
name gets. A header that is read as the words of its parameters stands for a template with the same
names and without defaults.
-/

namespace CppRefactor

namespace TemplateHeader

/-- The name that the parameter at a position gets if it has none. -/
def generated (i : Nat) : String := "T" ++ toString (i + 1)

theorem generated_injective (h : generated i = generated j) : i = j :=
  Nat.succ.inj (ExtractLiteral.toString_injective ((String.append_right_inj "T").mp h))

def written? (p : Tree) : Option String := (TemplateParameter.name? p).map (·.text)

/-- The names that are written in a template declaration. -/
def writtenNames (t : Tree) : List String := (templateParameters t).filterMap written?

theorem names_eq (t : Tree) : (ofTemplate t).names =
    (templateParameters t).mapIdx fun i p => (written? p).getD (generated i) := by
  have hname (i : Nat) (p : Tree) : (parameter i p).2 = (written? p).getD (generated i) := by
    unfold parameter written?
    cases TemplateParameter.name? p <;> rfl
  unfold ofTemplate templateParameters
  cases t.child? .templateParamList with
  | none => rfl
  | some list =>
    refine List.ext_getElem (by simp) fun i _ _ => ?_
    simp [hname]

theorem nodup_mapIdx_iff (params : List Tree) :
    (params.mapIdx fun i p => (written? p).getD (generated i)).Nodup ↔
      ∀ i j (hi : i < params.length) (hj : j < params.length), i < j →
        (written? params[i]).getD (generated i) ≠ (written? params[j]).getD (generated j) := by
  rw [List.Nodup, List.pairwise_iff_getElem]
  simp

theorem nodup_filterMap_iff (params : List Tree) :
    (params.filterMap written?).Nodup ↔
      ∀ i j (hi : i < params.length) (hj : j < params.length), i < j →
        ∀ name, written? params[i] = some name → written? params[j] ≠ some name := by
  rw [List.Nodup, List.pairwise_filterMap, List.pairwise_iff_getElem]
  refine forall₄_congr fun i j hi hj => forall_congr' fun _ => ⟨fun h name hi hj => ?_, ?_⟩
  · exact h name hi name hj rfl
  · rintro h name hi _ hj rfl
    exact h name hi hj

/-- No two names of a header are alike if and only if no two written ones are, and none of them is
the one that a parameter without a name gets. -/
theorem names_nodup_iff (t : Tree) :
    (ofTemplate t).names.Nodup ↔ (writtenNames t).Nodup ∧
      ∀ i p, (templateParameters t)[i]? = some p → written? p = none →
        generated i ∉ writtenNames t := by
  rw [names_eq, writtenNames]
  generalize templateParameters t = params
  rw [nodup_mapIdx_iff, nodup_filterMap_iff]
  constructor
  · intro h
    refine ⟨fun i j hi hj hlt name hname hname' => ?_, fun i p hp hnone hmem => ?_⟩
    · have hne := h i j hi hj hlt
      rw [hname, hname'] at hne
      exact hne rfl
    · obtain ⟨q, hq, hname⟩ := List.mem_filterMap.mp hmem
      obtain ⟨j, hj, rfl⟩ := List.getElem_of_mem hq
      obtain ⟨hi, rfl⟩ := List.getElem?_eq_some_iff.mp hp
      rcases Nat.lt_trichotomy i j with hlt | rfl | hlt
      · have hne := h i j hi hj hlt
        rw [hnone, hname] at hne
        exact hne rfl
      · cases hnone.symm.trans hname
      · have hne := h j i hj hi hlt
        rw [hnone, hname] at hne
        exact hne rfl
  · rintro ⟨hwritten, hgenerated⟩ i j hi hj hlt heq
    have hmem {i : Nat} {name : String} (hi : i < params.length)
        (hname : written? params[i] = some name) : name ∈ params.filterMap written? :=
      List.mem_filterMap.mpr ⟨_, List.getElem_mem hi, hname⟩
    have hgap {i : Nat} (hi : i < params.length) (hnone : written? params[i] = none) :
        generated i ∉ params.filterMap written? :=
      hgenerated i _ (List.getElem?_eq_getElem hi) hnone
    cases hni : written? params[i] with
    | none =>
      cases hnj : written? params[j] with
      | none =>
        rw [hni, hnj] at heq
        exact Nat.ne_of_lt hlt (generated_injective heq)
      | some name =>
        rw [hni, hnj, Option.getD_none, Option.getD_some] at heq
        exact hgap hi hni (heq ▸ hmem hj hnj)
    | some name =>
      cases hnj : written? params[j] with
      | none =>
        rw [hni, hnj, Option.getD_none, Option.getD_some] at heq
        exact hgap hj hnj (heq ▸ hmem hi hni)
      | some name' =>
        rw [hni, hnj, Option.getD_some, Option.getD_some] at heq
        exact hwritten i j hi hj hlt name hni (heq ▸ hnj)

/-- The second parameter is called by its position, like the first one. -/
theorem names_meet :
    (parse "template<class T2, class> void f();").errors = [] ∧
    ∃ t ∈ (parse "template<class T2, class> void f();").tree.preorder, t.kind = .templateDecl ∧
      writtenNames t = ["T2"] ∧ ofTemplate t = ⟨"template<class T2, class T2>", ["T2", "T2"]⟩ := by
  decide +kernel

/-- A token of a form, wherever it stands. -/
def ofForm (f : Kind × String) : Token := ⟨f.1, 0, f.2⟩

/-- The name of a parameter of certain words. -/
def nameOf (fs : List (Kind × String)) : Option String :=
  (TemplateParameter.nameIn 0 none (fs.map ofForm)).map (·.text)

/-- How many angle brackets are open behind words. -/
def angleDepth : Nat → List Kind → Nat
  | depth, [] => depth
  | depth, k :: ks =>
    match k with
    | .lt => angleDepth (depth + 1) ks
    | .gt => angleDepth (depth - 1) ks
    | _ => angleDepth depth ks

theorem nameIn_trivia (ht : t.isTrivia = true) (angle : Nat) (name : Option Token)
    (ts : List Token) :
    TemplateParameter.nameIn angle name (t :: ts) = TemplateParameter.nameIn angle name ts := by
  rw [Token.isTrivia] at ht
  rw [TemplateParameter.nameIn]
  split <;> rename_i hk <;> first | rfl | (rw [hk] at ht; cases ht)

theorem nameIn_forms {name name' : Option Token} (h : name.map (·.text) = name'.map (·.text))
    (angle : Nat) (ts : List Token) :
    (TemplateParameter.nameIn angle name ts).map (·.text) =
      (TemplateParameter.nameIn angle name' ((forms ts).map ofForm)).map (·.text) := by
  induction ts generalizing angle name name' with
  | nil => exact h
  | cons t ts ih =>
    rw [forms_cons]
    cases ht : t.isTrivia with
    | true =>
      rw [nameIn_trivia ht, if_pos rfl, List.nil_append]
      exact ih h angle
    | false =>
      rw [if_neg Bool.false_ne_true, List.singleton_append, List.map_cons]
      simp only [TemplateParameter.nameIn, ofForm]
      split
      case h_3 =>
        split
        · exact h
        · exact ih h angle
      case h_4 =>
        refine ih ?_ angle
        split
        · rfl
        · exact h
      all_goals exact ih h _

theorem written?_eq (p : Tree) : written? p = nameOf (forms p.tokens) :=
  nameIn_forms rfl 0 p.tokens

theorem nameIn_append {ts : List Token} (h : ∀ t ∈ ts, t.kind ≠ .eq) (angle : Nat)
    (name : Option Token) (us : List Token) :
    TemplateParameter.nameIn angle name (ts ++ us) =
      TemplateParameter.nameIn (angleDepth angle (ts.map Token.kind))
        (TemplateParameter.nameIn angle name ts) us := by
  induction ts generalizing angle name with
  | nil => rfl
  | cons t ts ih =>
    obtain ⟨ht, hts⟩ := List.forall_mem_cons.mp h
    obtain ⟨k, offset, text⟩ := t
    simp only [List.cons_append, List.map_cons, TemplateParameter.nameIn, angleDepth]
    split <;> simp only [ih hts]
    exact absurd rfl ht

theorem angleDepth_append (depth : Nat) (ks ls : List Kind) :
    angleDepth depth (ks ++ ls) = angleDepth (angleDepth depth ks) ls := by
  fun_induction angleDepth depth ks <;> simp_all [angleDepth]

/-- The words of a parameter in the header: those before its default, and the name it gets. -/
def declared (i : Nat) (p : Tree) : List (Kind × String) :=
  forms (p.tokens.takeWhile (·.kind != .eq)) ++
    if (written? p).isSome then [] else [(.ident, generated i)]

/-- The words of each parameter in the header. -/
def declaredParameters (t : Tree) : List (List (Kind × String)) :=
  (templateParameters t).mapIdx declared

/-- The words are a parameter, and angle brackets in it are closed. -/
def Declares (r : List (Kind × String)) : Prop :=
  Grammar.IsParameter (r.map Prod.fst) ∧ angleDepth 0 (r.map Prod.fst) = 0

instance (r : List (Kind × String)) : Decidable (Declares r) := inferInstanceAs (Decidable (_ ∧ _))

theorem ne_eq_of_mem_forms {ts : List Token} (h : ∀ t ∈ ts, t.kind ≠ .eq) :
    ∀ f ∈ forms ts, f.1 ≠ .eq := by
  intro f hf
  obtain ⟨t, ht, rfl⟩ := List.mem_map.mp hf
  exact h t (List.mem_filter.mp ht).1

theorem ne_eq_of_mem_takeWhile {ts : List Token} :
    ∀ t ∈ ts.takeWhile (·.kind != .eq), t.kind ≠ .eq := by
  intro t ht
  simpa using List.all_eq_true.mp List.all_takeWhile t ht

theorem ne_eq_of_mem_declared : ∀ f ∈ declared i p, f.1 ≠ .eq := by
  intro f hf
  rcases List.mem_append.mp hf with hf | hf
  · exact ne_eq_of_mem_forms ne_eq_of_mem_takeWhile f hf
  · split at hf
    · cases hf
    · cases List.mem_singleton.mp hf
      exact nofun

theorem nameIn_ofForm_append {fs gs : List (Kind × String)} (h : ∀ f ∈ fs, f.1 ≠ .eq)
    (hclosed : angleDepth 0 (fs.map Prod.fst) = 0) :
    TemplateParameter.nameIn 0 none ((fs ++ gs).map ofForm) =
      TemplateParameter.nameIn 0 (TemplateParameter.nameIn 0 none (fs.map ofForm))
        (gs.map ofForm) := by
  have hkinds : (fs.map ofForm).map Token.kind = fs.map Prod.fst := by
    rw [List.map_map]
    rfl
  rw [List.map_append, nameIn_append (List.forall_mem_map.mpr h), hkinds, hclosed]

theorem nameIn_default (name : Option Token) (ts : List Token) :
    TemplateParameter.nameIn 0 name ((forms (ts.dropWhile (·.kind != .eq))).map ofForm) = name := by
  cases h : ts.dropWhile (·.kind != .eq) with
  | nil => rfl
  | cons t rest =>
    have ht : t.kind = .eq := by
      have hhead := List.head?_dropWhile_not (·.kind != .eq) ts
      rw [h] at hhead
      simpa using hhead
    rw [forms_cons, Token.isTrivia, ht]
    rfl

theorem written?_eq_takeWhile {p : Tree}
    (h : angleDepth 0 ((forms (p.tokens.takeWhile (·.kind != .eq))).map Prod.fst) = 0) :
    written? p = nameOf (forms (p.tokens.takeWhile (·.kind != .eq))) := by
  have hsplit : forms p.tokens = forms (p.tokens.takeWhile (·.kind != .eq)) ++
      forms (p.tokens.dropWhile (·.kind != .eq)) := by
    rw [← forms_append, List.takeWhile_append_dropWhile]
  rw [written?_eq, hsplit, nameOf,
    nameIn_ofForm_append (ne_eq_of_mem_forms ne_eq_of_mem_takeWhile) h, nameIn_default, nameOf]

theorem nameOf_declared (h : angleDepth 0 ((declared i p).map Prod.fst) = 0) :
    nameOf (declared i p) = some ((written? p).getD (generated i)) := by
  have hclosed : angleDepth 0 ((forms (p.tokens.takeWhile (·.kind != .eq))).map Prod.fst) = 0 := by
    rw [declared, List.map_append, angleDepth_append] at h
    cases hw : written? p <;> simpa [hw, angleDepth] using h
  have hw := written?_eq_takeWhile hclosed
  rw [declared]
  cases hname : written? p with
  | some name =>
    rw [hname] at hw
    simp [← hw]
  | none =>
    rw [nameOf, nameIn_ofForm_append (ne_eq_of_mem_forms ne_eq_of_mem_takeWhile) hclosed]
    rfl

/-- A header that is read as the words of its parameters stands for a template with the same names
and without defaults. -/
theorem header_reparses (t : Tree)
    (hwords : readForms (ofTemplate t).text.toList = Grammar.headerForms (declaredParameters t))
    (hparams : ∀ r ∈ declaredParameters t, Declares r) :
    (parse (ofTemplate t).text).errors = [] ∧
    ∃ u ∈ (parse (ofTemplate t).text).tree.preorder, u.kind = .templateDecl ∧
      (templateParameters u).map (fun p => forms p.tokens) = declaredParameters t ∧
      (templateParameters u).map written? = (ofTemplate t).names.map some ∧
      ∀ p ∈ templateParameters u, p.hasToken .eq = false := by
  obtain ⟨hok, u, hu, hkind, hforms⟩ := parse_header (fun r hr => (hparams r hr).1) hwords
  have hnames : (declaredParameters t).map nameOf = (ofTemplate t).names.map some := by
    rw [names_eq]
    refine List.ext_getElem (by simp [declaredParameters]) fun i hi _ => ?_
    have hclosed := (hparams _ (List.getElem_mem (by simpa using hi))).2
    simpa [declaredParameters] using nameOf_declared (by simpa [declaredParameters] using hclosed)
  refine ⟨hok, u, hu, hkind, hforms, ?_, fun p hp => ?_⟩
  · rw [← hnames, ← hforms, List.map_map]
    exact List.map_congr_left fun p _ => written?_eq p
  · rw [Tree.hasToken, List.any_eq_false]
    intro w hw heq
    have hkind : w.kind = .eq := by simpa using heq
    have hdeclared : forms p.tokens ∈ declaredParameters t := hforms ▸ List.mem_map_of_mem hp
    obtain ⟨i, hi, hdeclared⟩ := List.mem_mapIdx.mp hdeclared
    have hword : w.isTrivia = false := by
      rw [Token.isTrivia, hkind]
      rfl
    have hform : (w.kind, w.text) ∈ forms p.tokens :=
      List.mem_map.mpr ⟨w, List.mem_filter.mpr ⟨hw, by rw [hword]; rfl⟩, rfl⟩
    rw [← hdeclared] at hform
    exact ne_eq_of_mem_declared _ hform hkind

example : ∃ t ∈ (parse "template<class, template<class> class C = V> void f();").tree.preorder,
    readForms (ofTemplate t).text.toList = Grammar.headerForms (declaredParameters t) ∧
      declaredParameters t ≠ [] ∧ ∀ r ∈ declaredParameters t, Declares r := by
  decide +kernel

end TemplateHeader

end CppRefactor
