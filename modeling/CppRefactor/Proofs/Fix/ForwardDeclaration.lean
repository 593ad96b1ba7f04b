import CppRefactor.Fix.ForwardDeclaration
import CppRefactor.Proofs.Fix.Request
import CppRefactor.Proofs.Symbols.Declared
import CppRefactor.Proofs.Text.Blanks

/-!
A forward declaration is that of the name as it stands at the top of the file: the namespaces that
are open there are entered, the others are opened. It is found, and not offered again, where the
name is looked up in that namespace. From inside other namespaces it may not be.
-/

namespace CppRefactor

namespace ForwardDeclaration

/-- Names lead from the body of a file or a namespace into definitions of namespaces that start
before an offset. -/
inductive Opens (offset : Nat) : Tree → List String → Tree → Prop
  | here (body : Tree) : Opens offset body [] body
  | into {item list target : Tree} {names : List String} (hitem : item ∈ body.items)
    (hkind : item.kind = .namespaceDef) (hstart : item.span.start < offset)
    (hlist : item.child? .declList = some list) (h : Opens offset list names target) :
    Opens offset body (namespacePath item ++ names) target

/-- The code of a class in namespaces. -/
def nested (namespaces : List String) (name : String) : List Char :=
  namespaces.foldr (fun ns code => squash ("namespace " ++ ns ++ " \x7b") ++ code ++ ['}'])
    (squash ("class " ++ name ++ ";"))

/-- An insertion that declares a class in namespaces. Definitions of the first ones are open, and no
definition goes on from there. The others are written around the class. -/
def Declares (root : Tree) (lines : LineIndex) (offset : Nat) (names : List String)
    (name : String) (i : Insertion) : Prop :=
  ∃ body opened missing, names = opened ++ missing ∧ Opens offset root opened body ∧
    (∀ item ∈ body.items, opens? offset missing item = none) ∧
    place? lines body (declare missing name) = some i ∧ squash i.text = nested missing name

variable {offset : Nat} {item body inner : Tree} {names rest missing : List String}

theorem of_opens? (h : opens? offset names item = some (inner, rest)) :
    item.kind = .namespaceDef ∧ item.span.start < offset ∧ item.child? .declList = some inner ∧
      namespacePath item ≠ [] ∧ names = namespacePath item ++ rest := by
  simp only [opens?, Option.bind_eq_bind, Option.bind_eq_some_iff, Option.guard_eq_some',
    Bool.and_eq_true, beq_iff_eq, decide_eq_true_eq, Bool.not_eq_true', exists_const] at h
  obtain ⟨⟨hkind, hstart⟩, ⟨hne, hprefix⟩, list, hlist, h⟩ := h
  cases h
  have happend := List.prefix_iff_eq_append.mp (List.isPrefixOf_iff_prefix.mp hprefix)
  exact ⟨hkind, hstart, hlist, List.isEmpty_eq_false_iff.mp hne, happend.symm⟩

theorem opens?_nil (offset : Nat) (item : Tree) : opens? offset [] item = none := by
  cases h : opens? offset [] item with
  | none => rfl
  | some found =>
    obtain ⟨-, -, -, hne, hnil⟩ := of_opens? h
    exact absurd (List.append_eq_nil_iff.mp hnil.symm).1 hne

theorem innermost_opens {n : Nat} (h : innermost offset n body names = (inner, missing)) :
    ∃ opened, names = opened ++ missing ∧ Opens offset body opened inner := by
  induction n generalizing body names with
  | zero =>
    cases h
    exact ⟨[], rfl, .here _⟩
  | succ n ih =>
    rw [innermost] at h
    split at h
    · rename_i next rest hnext
      obtain ⟨item, hitem, hopens⟩ := List.exists_of_findSome?_eq_some hnext
      obtain ⟨hkind, hstart, hlist, -, hnames⟩ := of_opens? hopens
      obtain ⟨opened, hrest, hopened⟩ := ih h
      refine ⟨namespacePath item ++ opened, ?_, .into hitem hkind hstart hlist hopened⟩
      rw [hnames, hrest, List.append_assoc]
    · cases h
      exact ⟨[], rfl, .here _⟩

theorem innermost_stops {n : Nat} (hn : names.length ≤ n)
    (h : innermost offset n body names = (inner, missing)) :
    ∀ item ∈ inner.items, opens? offset missing item = none := by
  induction n generalizing body names with
  | zero =>
    cases h
    cases List.length_eq_zero_iff.mp (Nat.le_zero.mp hn)
    exact fun item _ => opens?_nil offset item
  | succ n ih =>
    rw [innermost] at h
    split at h
    · rename_i next rest hnext
      obtain ⟨item, -, hopens⟩ := List.exists_of_findSome?_eq_some hnext
      obtain ⟨-, -, -, hne, hnames⟩ := of_opens? hopens
      have hpos := List.length_pos_iff.mpr hne
      rw [hnames, List.length_append] at hn
      exact ih (by omega) h
    · rename_i hnone
      cases h
      exact List.findSome?_eq_none_iff.mp hnone

theorem squash_join (texts : List String) : squash (.join texts) = texts.flatMap squash := by
  induction texts with
  | nil => rfl
  | cons text texts ih => simp [ih]

theorem nested_eq (namespaces : List String) (name : String) :
    nested namespaces name =
      namespaces.flatMap (fun ns => squash ("namespace " ++ ns ++ " \x7b")) ++
        squash ("class " ++ name ++ ";") ++ .replicate namespaces.length '}' := by
  induction namespaces with
  | nil => simp [nested]
  | cons ns namespaces ih =>
    rw [nested, List.foldr_cons, ← nested, ih]
    simp [List.replicate_succ']

theorem squash_declare (namespaces : List String) (name : String) :
    squash (declare namespaces name) = nested namespaces name := by
  unfold declare
  dsimp only
  split
  · rfl
  · have hopen : squash " \x7b " = squash " \x7b" := by decide
    have hclose : squash " \x7d" = ['}'] := by decide
    simp [nested, hopen, hclose]
  · have hopen : squash " \x7b\n" = squash " \x7b" := by decide
    have hclose : squash "\n\x7d" = ['}'] := by decide
    have hopens : squash (.join (namespaces.map fun ns => "namespace " ++ ns ++ " \x7b\n")) =
        namespaces.flatMap fun ns => squash ("namespace " ++ ns ++ " \x7b") := by
      simp only [squash_join, List.flatMap_map, squash_append, hopen]
    have hcloses : squash (.join (namespaces.map fun _ => "\n\x7d")) =
        .replicate namespaces.length '}' := by
      rw [squash_join, List.flatMap_map, hclose, ← List.map_eq_flatMap, List.map_const']
    rw [nested_eq, squash_append, squash_append, hopens, hcloses]

theorem squash_place {lines : LineIndex} {declaration : String} {i : Insertion}
    (h : place? lines body declaration = some i) : squash i.text = squash declaration := by
  simp only [place?, Option.bind_eq_bind] at h
  split at h
  · obtain ⟨brace, -, h⟩ := Option.bind_eq_some_iff.mp h
    obtain ⟨anchor, -, h⟩ := Option.bind_eq_some_iff.mp h
    split at h
    · cases h
      simp
    · cases h
      simp
  · obtain ⟨anchor, -, h⟩ := Option.bind_eq_some_iff.mp h
    cases h
    simp

variable {t : SymbolTable} {site : Site} {path : TypePath} {block : ScopeId} {id : SymbolId}

theorem lookupPath_of_canDeclare (hne : path.segments ≠ []) (h : canDeclare t site path = true) :
    t.lookupPath ⟨site, .any, []⟩ path = [] := by
  obtain ⟨n, hn⟩ := Nat.exists_eq_succ_of_ne_zero (mt List.length_eq_zero_iff.mp hne)
  have hlast := List.all_eq_true.mp h n (List.mem_range.mpr (by omega))
  have hall : AddInclude.upTo path n = path := by
    rw [AddInclude.upTo, ← Nat.succ_eq_add_one, ← hn, List.take_length]
  rw [if_pos hn.symm, hall] at hlast
  exact List.isEmpty_iff.mp hlast

/-- Where a class is declared in a block in which the last segment is looked up, it cannot be
declared again. -/
theorem canDeclare_of_exposes (ht : t.Indexed) (hpath : t.LooksIn site path block)
    (h : t.Exposes ⟨site, .any, []⟩ path.last.name block id) : canDeclare t site path = false := by
  have hne : path.segments ≠ [] := by
    cases hpath with
    | around => exact List.cons_ne_nil _ _
    | outermost => exact List.cons_ne_nil _ _
    | behind => exact List.concat_ne_nil _ _
  refine Bool.eq_false_iff.mpr fun hdeclare => ?_
  exact h.lookupPath_ne_nil ht hpath (lookupPath_of_canDeclare hne hdeclare)

theorem segments_of_ofName? {name : Tree} (h : TypePath.ofName? name = some path) :
    path.segments ≠ [] := by
  rw [TypePath.ofName?] at h
  split at h
  · cases h
  · cases h
    simpa using ‹_›

theorem names_getLast? (hne : path.segments ≠ []) :
    path.names.getLast? = some path.last.name := by
  rw [TypePath.names, List.getLast?_map, List.getLast?_eq_some_getLast hne, TypePath.last,
    List.getLastD_eq_getLast?, List.getLast?_eq_some_getLast hne]
  rfl

theorem insertion?_declares {root : Tree} {lines : LineIndex} {name : String} {i : Insertion}
    (hname : names.getLast? = some name) (h : insertion? root lines offset names = some i) :
    Declares root lines offset names.dropLast name i := by
  rw [insertion?, hname] at h
  cases hinner : innermost offset names.length root names.dropLast with
  | mk body missing =>
    have hplace : place? lines body (declare missing name) = some i := by
      simpa [hinner] using h
    obtain ⟨opened, hnames, hopens⟩ := innermost_opens hinner
    have hlength := (List.dropLast_sublist names).length_le
    exact ⟨body, opened, missing, hnames, hopens, innermost_stops hlength hinner, hplace,
      (squash_place hplace).trans (squash_declare missing name)⟩

/-- The class that is offered is not found, and what is inserted declares it under the path of the
name from the top of the file. -/
theorem offers_declares {r : Request} {fs : List ForwardDeclaration} {f : ForwardDeclaration}
    (h : offers r = .ok fs) (hf : f ∈ fs) :
    ∃ use path site, r.find? .qualifiedName = some use ∧
      TypePath.ofName? use.focus = some path ∧ r.siteAt? use.span.start = some site ∧
      r.symbols.lookupPath ⟨site, .any, []⟩ path = [] ∧
      Declares r.source.tree r.lines use.span.start path.names.dropLast path.last.name
        f.insertion := by
  unfold offers at h
  split at h
  · cases h
    cases hf
  · rename_i use huse
    obtain ⟨path, hpath, h⟩ := of_bind_eq_ok h
    have hpath := of_orError hpath
    have hne := segments_of_ofName? hpath
    split at h
    · obtain ⟨site, hsite, h⟩ := of_bind_eq_ok h
      split at h
      · rename_i hdeclare
        obtain ⟨i, hi, h⟩ := of_bind_eq_ok h
        cases h
        rw [List.mem_singleton.mp hf]
        exact ⟨use, path, site, (Option.filter_eq_some_iff.mp huse).1, hpath, of_orError hsite,
          lookupPath_of_canDeclare hne hdeclare,
          insertion?_declares (names_getLast? hne) (of_orError hi)⟩
      · cases h
        cases hf
    · cases h
      cases hf

/-- The namespace that is named is one in another namespace, and the class is declared in one at the
top of the file. It is still not found, and it is offered again. -/
theorem declared_elsewhere :
    let before := "namespace M \x7b\nnamespace N \x7b\n\x7d\nN::C c;\n\x7d\n"
    let after := "\nnamespace N \x7b class C; \x7d\n" ++ before
    let again := "\nnamespace N \x7b class C; class C; \x7d\n" ++ before
    Request.textsOffered offers changes (RemoveUsing.snapshotOf before) 0 30 =
        [some [("/a.cpp", after)]] ∧
      Request.textsOffered offers changes (RemoveUsing.snapshotOf after) 0 56 =
        [some [("/a.cpp", again)]] := by
  decide +kernel

end ForwardDeclaration

end CppRefactor
