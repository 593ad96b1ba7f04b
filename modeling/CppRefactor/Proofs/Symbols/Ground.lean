import CppRefactor.Proofs.Symbols.Built
import CppRefactor.Proofs.Symbols.Sound

/-!
The ground that something is declared on: room inside a scope, in which no other scope stands, and
offsets at which no name starts. What is declared on such ground leaves a sound table sound,
whatever stands elsewhere, and leaves other ground as it is.
-/

namespace CppRefactor.Declare

/-- What may be declared: scopes inside a span, with the offsets of `room` only, and names that
start at one of `names`. -/
structure Ground where
  within : Span
  room : Set Nat
  names : Set Nat

/-- The ground of a tree. -/
def Ground.of (s : Span) : Ground := ⟨s, s.offsets, s.offsets⟩

/-- Nothing is declared on some ground inside the scope of a place. -/
structure Free (t : SymbolTable) (p : Place) (g : Ground) : Prop where
  place : t.IsIn p.file p.scope
  within : g.within.Within (t.scope p.scope).span
  room : ∀ i o, t.IsIn p.file i → o ∈ g.room → o ∈ (t.scope i).span.offsets → t.Around p.scope i
  names : ∀ i ∈ t.declared, (t.symbol i).file = p.file → (t.symbol i).nameSpan.start ∉ g.names

/-- A table grows in a file, with room for its new scopes and offsets for its new names, and stays
sound. -/
structure Grows (file : FileId) (room names : Set Nat) (t t' : SymbolTable) : Prop
    extends t.Extends t' where
  sound : t'.Sound
  newScope : ∀ i, t.scopes.size ≤ i → i < t'.scopes.size →
    (t'.scope i).file = file ∧ (t'.scope i).span.offsets ⊆ room
  newSymbol : ∀ i, t.symbols.size ≤ i → i < t'.symbols.size →
    (t'.symbol i).file = file ∧ (t'.symbol i).nameSpan.start ∈ names

variable {t t' t'' : SymbolTable} {p : Place} {file : FileId} {w w' : Span}
  {r r' r₁ r₂ n n' n₁ n₂ : Set Nat}

theorem Free.mono (h : Free t p ⟨w', r', n'⟩) (hw : w.Within w') (hr : r ⊆ r') (hn : n ⊆ n') :
    Free t p ⟨w, r, n⟩ where
  place := h.place
  within := hw.trans h.within
  room i o hi ho := h.room i o hi (hr ho)
  names i hi hfile hstart := h.names i hi hfile (hn hstart)

namespace Grows

theorem refl (h : t.Sound) : Grows file r n t t where
  toExtends := .refl t
  sound := h
  newScope _ hle hlt := absurd hlt (Nat.not_lt.mpr hle)
  newSymbol _ hle hlt := absurd hlt (Nat.not_lt.mpr hle)

theorem mono (h : Grows file r n t t') (hr : r ⊆ r') (hn : n ⊆ n') :
    Grows file r' n' t t' where
  toExtends := h.toExtends
  sound := h.sound
  newScope i hle hlt := ⟨(h.newScope i hle hlt).1, (h.newScope i hle hlt).2.trans hr⟩
  newSymbol i hle hlt := ⟨(h.newSymbol i hle hlt).1, hn (h.newSymbol i hle hlt).2⟩

theorem trans (h : Grows file r n t t') (h' : Grows file r n t' t'') :
    Grows file r n t t'' where
  toExtends := h.toExtends.trans h'.toExtends
  sound := h'.sound
  newScope i hle hlt := by
    rcases Nat.lt_or_ge i t'.scopes.size with hi | hi
    · obtain ⟨-, -, -, hfile, hspan⟩ := Scope.core_inj (h'.scope i hi)
      rw [hfile, hspan]
      exact h.newScope i hle hi
    · exact h'.newScope i hi hlt
  newSymbol i hle hlt := by
    rcases Nat.lt_or_ge i t'.symbols.size with hi | hi
    · obtain ⟨-, -, hfile, hname, -⟩ := Symbol.core_inj (h'.symbol i hi)
      rw [hfile, hname]
      exact h.newSymbol i hle hi
    · exact h'.newSymbol i hi hlt

end Grows

theorem Free.grows (h : Free t p ⟨w, r₂, n₂⟩) (hg : Grows p.file r₁ n₁ t t')
    (hr : Disjoint r₁ r₂) (hn : Disjoint n₁ n₂) : Free t' p ⟨w, r₂, n₂⟩ where
  place := h.place.mono hg.toExtends
  within := by
    rw [(Scope.core_inj (hg.scope p.scope h.place.lt)).2.2.2.2]
    exact h.within
  room i o hi ho ho' := by
    rcases Nat.lt_or_ge i t.scopes.size with hlt | hge
    · obtain ⟨-, -, -, hfile, hspan⟩ := Scope.core_inj (hg.scope i hlt)
      refine hg.around (h.room i o ⟨hlt, ?_⟩ ho (hspan ▸ ho'))
      exact hfile.symm.trans hi.file
    · exact (Set.disjoint_left.mp hr ((hg.newScope i hge hi.lt).2 ho') ho).elim
  names i hi hfile hstart := by
    have hi' := t'.mem_declared.mp hi
    rcases Nat.lt_or_ge i t.symbols.size with hlt | hge
    · obtain ⟨-, -, hf, hname, -⟩ := Symbol.core_inj (hg.symbol i hlt)
      refine h.names i (t.mem_declared.mpr ⟨hi'.1, hlt⟩) (hf.symm.trans hfile) ?_
      exact hname ▸ hstart
    · exact Set.disjoint_left.mp hn (hg.newSymbol i hge hi'.2).2 hstart

/-- Declaring something fills some ground at a place; the symbols that are known are of its file,
and so are those that the result gives. -/
structure Gives (known : Set SymbolId) (p : Place) (g : Ground) (m : Declaring α)
    (given : α → Set SymbolId) : Prop where
  grows : ∀ s, s.table.Sound → Free s.table p g → (∀ i ∈ known, s.table.Owns p.file i) →
    Grows p.file g.room g.names s.table (m.run s).2.table
  owns : ∀ s, s.table.Sound → Free s.table p g → (∀ i ∈ known, s.table.Owns p.file i) →
    ∀ i ∈ given (m.run s).1, (m.run s).2.table.Owns p.file i

def Fills (known : Set SymbolId) (p : Place) (g : Ground) (m : Declaring α) : Prop :=
  Gives known p g m fun _ => ∅

variable {known known' : Set SymbolId}

namespace Gives

variable {m : Declaring α} {f : α → Declaring β} {given : α → Set SymbolId}
  {given' : β → Set SymbolId}

theorem pure {a : α} (h : given a ⊆ known) : Gives known p ⟨w, r, n⟩ (Pure.pure a) given where
  grows _ hs _ _ := .refl hs
  owns _ _ _ hk i hi := hk i (h hi)

theorem mono (hm : Gives known p ⟨w, r, n⟩ m given) (hw : w.Within w') (hr : r ⊆ r')
    (hn : n ⊆ n') : Gives known p ⟨w', r', n'⟩ m given where
  grows s hs hfree hk := (hm.grows s hs (hfree.mono hw hr hn) hk).mono hr hn
  owns s hs hfree hk := hm.owns s hs (hfree.mono hw hr hn) hk

theorem known_mono (hm : Gives known p ⟨w, r, n⟩ m given) (h : known ⊆ known') :
    Gives known' p ⟨w, r, n⟩ m given where
  grows s hs hfree hk := hm.grows s hs hfree fun i hi => hk i (h hi)
  owns s hs hfree hk := hm.owns s hs hfree fun i hi => hk i (h hi)

theorem bind (hm : Gives known p ⟨w, r₁, n₁⟩ m given)
    (hf : ∀ a, Gives (known ∪ given a) p ⟨w, r₂, n₂⟩ (f a) given') (hr : Disjoint r₁ r₂)
    (hn : Disjoint n₁ n₂) : Gives known p ⟨w, r₁ ∪ r₂, n₁ ∪ n₂⟩ (m >>= f) given' := by
  have hleft {s : State} (hfree : Free s.table p ⟨w, r₁ ∪ r₂, n₁ ∪ n₂⟩) :=
    hfree.mono (.refl w) (Set.subset_union_left (s := r₁) (t := r₂))
      (Set.subset_union_left (s := n₁) (t := n₂))
  have hright {s : State} (hs : s.table.Sound) (hfree : Free s.table p ⟨w, r₁ ∪ r₂, n₁ ∪ n₂⟩)
      (hk : ∀ i ∈ known, s.table.Owns p.file i) :
      Free (m.run s).2.table p ⟨w, r₂, n₂⟩ ∧
        ∀ i ∈ known ∪ given (m.run s).1, (m.run s).2.table.Owns p.file i := by
    have hg := hm.grows s hs (hleft hfree) hk
    refine ⟨(hfree.mono (.refl w) Set.subset_union_right Set.subset_union_right).grows hg hr hn, ?_⟩
    rintro i (hi | hi)
    · exact (hk i hi).mono hg.toExtends
    · exact hm.owns s hs (hleft hfree) hk i hi
  constructor
  · intro s hs hfree hk
    have hg := hm.grows s hs (hleft hfree) hk
    obtain ⟨hfree', hk'⟩ := hright hs hfree hk
    have hg' := (hf (m.run s).1).grows (m.run s).2 hg.sound hfree' hk'
    exact (hg.mono Set.subset_union_left Set.subset_union_left).trans
      (hg'.mono Set.subset_union_right Set.subset_union_right)
  · intro s hs hfree hk
    have hg := hm.grows s hs (hleft hfree) hk
    obtain ⟨hfree', hk'⟩ := hright hs hfree hk
    exact (hf (m.run s).1).owns (m.run s).2 hg.sound hfree' hk'

theorem read (hm : Silent m) (hf : ∀ s, Gives known p ⟨w, r, n⟩ (f (m.run s).1) given') :
    Gives known p ⟨w, r, n⟩ (m >>= f) given' := by
  constructor
  · intro s hs hfree hk
    have hg := (hf s).grows (m.run s).2
    rw [hm s] at hg
    exact hg hs hfree hk
  · intro s hs hfree hk
    have ho := (hf s).owns (m.run s).2
    rw [hm s] at ho
    exact ho hs hfree hk

theorem silent (hm : Silent m) : Fills known p ⟨w, r, n⟩ m where
  grows s hs _ _ := by
    rw [hm s]
    exact .refl hs
  owns _ _ _ _ _ hi := hi.elim

theorem discard (hm : Gives known p ⟨w, r, n⟩ m given) :
    Fills known p ⟨w, r, n⟩ (discard m) where
  grows := hm.grows
  owns _ _ _ _ _ hi := hi.elim

theorem ite {c : Prop} [Decidable c] {m' : Declaring α} (hm : Gives known p ⟨w, r, n⟩ m given)
    (hm' : Gives known p ⟨w, r, n⟩ m' given) :
    Gives known p ⟨w, r, n⟩ (if c then m else m') given := by
  split
  · exact hm
  · exact hm'

theorem withAccess (access : Option Access) {body : Declaring Unit}
    (h : Fills known p ⟨w, r, n⟩ body) : Fills known p ⟨w, r, n⟩ (withAccess access body) where
  grows s hs hfree hk := h.grows { s with access } hs hfree hk
  owns _ _ _ _ _ hi := hi.elim

theorem andThen (hm : Gives known p ⟨w, ∅, {o}⟩ m given)
    (hf : ∀ a, Gives (known ∪ given a) p ⟨w, r, n⟩ (f a) given') (ho : o ∉ n) :
    Gives known p ⟨w, r, insert o n⟩ (m >>= f) given' :=
  (hm.bind hf (Set.empty_disjoint r) (Set.disjoint_singleton_left.mpr ho)).mono (.refl w)
    (Set.empty_union r).subset (Set.singleton_union).subset

theorem seq (hm : Fills known p ⟨w, r₁, n₁⟩ m)
    (hf : ∀ a, Gives known p ⟨w, r₂, n₂⟩ (f a) given') (hr : Disjoint r₁ r₂)
    (hn : Disjoint n₁ n₂) : Gives known p ⟨w, r₁ ∪ r₂, n₁ ∪ n₂⟩ (m >>= f) given' :=
  hm.bind (fun a => (hf a).known_mono Set.subset_union_left) hr hn

theorem after (hm : Fills known p ⟨w, ∅, ∅⟩ m)
    (hf : ∀ a, Gives known p ⟨w, r, n⟩ (f a) given') :
    Gives known p ⟨w, r, n⟩ (m >>= f) given' :=
  (seq hm hf (Set.empty_disjoint r) (Set.empty_disjoint n)).mono (.refl w)
    (Set.empty_union r).subset (Set.empty_union n).subset

theorem namesThen (hm : Fills known p ⟨w, ∅, n₁⟩ m)
    (hf : ∀ a, Gives known p ⟨w, r, n₂⟩ (f a) given') (hn : Disjoint n₁ n₂) :
    Gives known p ⟨w, r, n₁ ∪ n₂⟩ (m >>= f) given' :=
  (seq hm hf (Set.empty_disjoint r) hn).mono (.refl w) (Set.empty_union r).subset subset_rfl

theorem thenPure {b : β} (hm : Fills known p ⟨w, r, n⟩ m) (hb : given' b ⊆ known) :
    Gives known p ⟨w, r, n⟩ (m >>= fun _ => Pure.pure b) given' :=
  (seq hm (fun _ => pure (r := ∅) (n := ∅) hb) (Set.disjoint_empty r)
    (Set.disjoint_empty n)).mono (.refl w) (Set.union_empty r).subset (Set.union_empty n).subset

theorem forM {as : List β} {f : β → Declaring PUnit} {R N : β → Set Nat}
    (hf : ∀ a ∈ as, Fills known p ⟨w, R a, N a⟩ (f a))
    (hR : as.Pairwise fun a b => Disjoint (R a) (R b))
    (hN : as.Pairwise fun a b => Disjoint (N a) (N b)) (hr : ∀ a ∈ as, R a ⊆ r)
    (hn : ∀ a ∈ as, N a ⊆ n) : Fills known p ⟨w, r, n⟩ (as.forM f) := by
  suffices h : Fills known p ⟨w, ⋃ a ∈ as, R a, ⋃ a ∈ as, N a⟩ (as.forM f) from
    h.mono (.refl w) (Set.iUnion₂_subset hr) (Set.iUnion₂_subset hn)
  clear hr hn
  induction as with
  | nil => exact pure (Set.empty_subset known)
  | cons a as ih =>
    obtain ⟨hfa, hf⟩ := List.forall_mem_cons.mp hf
    obtain ⟨hRa, hR⟩ := List.pairwise_cons.mp hR
    obtain ⟨hNa, hN⟩ := List.pairwise_cons.mp hN
    refine (seq hfa (fun _ => ih hf hR hN) ?_ ?_).mono (.refl w) ?_ ?_
    · exact Set.disjoint_iUnion₂_right.mpr hRa
    · exact Set.disjoint_iUnion₂_right.mpr hNa
    · simp
    · simp

theorem run {f : SymbolTable → α × SymbolTable}
    (h : ∀ t, t.Sound → Free t p ⟨w, r, n⟩ → (∀ i ∈ known, t.Owns p.file i) →
      Grows p.file r n t (f t).2 ∧ ∀ i ∈ given (f t).1, (f t).2.Owns p.file i) :
    Gives known p ⟨w, r, n⟩ (Declare.run f) given where
  grows s hs hfree hk := (h s.table hs hfree hk).1
  owns s hs hfree hk := (h s.table hs hfree hk).2

end Gives

/-- A type that is looked up from a place, and declared with a symbol that is known. -/
structure Place.FitsType (p : Place) (known : Set SymbolId) (type : TypeRef) : Prop where
  file : type.site.file = p.file
  scope : type.site.scope = p.scope
  target : ∀ i, type.target = some i → i ∈ known

/-- A symbol that can be declared at a place. -/
structure Place.Fits (p : Place) (known : Set SymbolId) (s : Symbol) : Prop where
  plain : s.isNamespace = false
  file : s.file = p.file
  parent : s.parent = some p.scope
  scope : s.scope = none
  type : ∀ type, s.type = some type → p.FitsType known type
  bases : ∀ base ∈ s.bases, p.FitsType known base

theorem Place.FitsType.hasType {type : TypeRef} (h : p.FitsType known type)
    (hp : t.IsIn p.file p.scope) (hk : ∀ i ∈ known, t.Owns p.file i) : t.HasType p.file type where
  site := h.file
  scope := h.scope ▸ hp
  target i hi := hk i (h.target i hi)

theorem Place.Fits.hasSymbol {s : Symbol} (h : p.Fits known s) (hp : t.IsIn p.file p.scope)
    (hk : ∀ i ∈ known, t.Owns p.file i) : t.HasSymbol s where
  body b hb := nomatch h.scope.symm.trans hb
  parent q hq := by
    obtain rfl := Option.some.inj (h.parent.symm.trans hq)
    exact h.file ▸ hp
  type type htype := h.file ▸ (h.type type htype).hasType hp hk
  bases base hbase := h.file ▸ (h.bases base hbase).hasType hp hk

theorem Grows.of_extends (h : t.Extends t') (hs : t'.Sound)
    (hscopes : t'.scopes.size = t.scopes.size) (hsymbols : t'.symbols.size = t.symbols.size) :
    Grows file r n t t' where
  toExtends := h
  sound := hs
  newScope _ hle hlt := absurd hlt (Nat.not_lt.mpr (hscopes ▸ hle))
  newSymbol _ hle hlt := absurd hlt (Nat.not_lt.mpr (hsymbols ▸ hle))

section

variable (h : t.Sound)

include h

theorem grows_modifyScope {f : Scope → Scope} (hp : t.IsIn p.file p.scope)
    (hcore : ∀ s, (f s).core = s.core) (hchildren : ∀ s, (f s).children = s.children)
    (hcontext : ∀ s, (f s).classContext = s.classContext)
    (hmembers : ∀ m ∈ (f (t.scope p.scope)).members,
      m ∈ (t.scope p.scope).members ∨ t.Has p.file m) :
    Grows p.file r n t (t.modifyScope p.scope f) := by
  refine .of_extends (t.extends_modifyScope hcore p.scope) ?_ (t.size_modifyScope p.scope f) rfl
  exact h.modifyScope hcore hchildren hcontext (hp.file.symm ▸ hmembers)

variable (hfree : Free t p ⟨w, r, n⟩)

include hfree

theorem grows_addDetached {s : Symbol} (hs : t.HasSymbol s) (hfile : s.file = p.file)
    (hstart : s.nameSpan.start ∈ n) : Grows p.file r n t (t.addDetached s).2 where
  toExtends := t.extends_addDetached s
  sound := h.addDetached hs fun i hi hf he => hfree.names i hi (hf.trans hfile) (he ▸ hstart)
  newScope _ hle hlt := absurd hlt (Nat.not_lt.mpr hle)
  newSymbol i hle hlt := by
    have hsize : (t.addDetached s).2.symbols.size = t.symbols.size + 1 := Array.size_push ..
    rw [hsize] at hlt
    have hi : i = t.symbols.size := Nat.le_antisymm (Nat.le_of_lt_succ hlt) hle
    rw [t.symbol_addDetached, if_pos hi]
    exact ⟨hfile, hstart⟩

theorem grows_add {s : Symbol} (hs : t.HasSymbol s) (hfile : s.file = p.file)
    (hparent : s.parent = some p.scope) (hstart : s.nameSpan.start ∈ n) :
    Grows p.file r n t (t.add s).2 := by
  have hg := grows_addDetached h hfree hs hfile hstart
  have hhas : (t.addDetached s).2.Has p.file t.symbols.size := by
    refine ⟨Nat.lt_of_lt_of_eq (Nat.lt_succ_self _) (Array.size_push ..).symm, .inr ?_⟩
    rw [t.symbol_addDetached, if_pos rfl]
    exact hfile
  rw [t.add_eq hparent]
  refine hg.trans (grows_modifyScope hg.sound (hfree.place.mono hg.toExtends) (fun _ => rfl)
    (fun _ => rfl) (fun _ => rfl) fun m hm => ?_)
  rcases List.mem_append.mp hm with hm | hm
  · exact .inl hm
  · exact .inr (List.mem_singleton.mp hm ▸ hhas)

/-- A namespace is declared, or the block gets to know one that is there. -/
theorem grows_declareNamespace (name : String) {span : Span} (hstart : span.start ∈ n) :
    Grows p.file r n t (t.declareNamespace name p.scope span).2 := by
  unfold SymbolTable.declareNamespace
  split
  · rename_i i hi
    have hhas : t.Has p.file i := by
      have hns := h.namespaces.hasNamespace hi
      exact ⟨hns.lt, .inl hns.space⟩
    refine grows_modifyScope h hfree.place (fun s => ?_) (fun s => ?_) (fun s => ?_) fun m hm => ?_
    · split <;> rfl
    · split <;> rfl
    · split <;> rfl
    · split at hm
      · exact .inl hm
      · rcases List.mem_append.mp hm with hm | hm
        · exact .inl hm
        · exact .inr (List.mem_singleton.mp hm ▸ hhas)
  · have hadded : Grows p.file r n t (t.add (t.newNamespace name p.scope span)).2 := by
      refine grows_add h hfree ⟨nofun, fun q hq => ?_, nofun, nofun⟩ hfree.place.file rfl hstart
      obtain rfl := Option.some.inj hq
      exact ⟨hfree.place.lt, rfl⟩
    rw [t.addNamespace_eq]
    refine hadded.trans (.of_extends (SymbolTable.extends_indexNamespace ..) ?_ rfl rfl)
    refine hadded.sound.indexNamespace ⟨by simp, ?_⟩
    rw [t.symbol_add, if_pos rfl]
    rfl

end

theorem Place.Fits.owns {s : Symbol} (h : p.Fits known s) :
    (t.addDetached s).2.Owns p.file t.symbols.size := by
  have hnew : (t.addDetached s).2.symbol t.symbols.size = s := by
    rw [t.symbol_addDetached, if_pos rfl]
  refine ⟨Nat.lt_of_lt_of_eq (Nat.lt_succ_self _) (Array.size_push ..).symm, ?_, ?_⟩
  · exact hnew.symm ▸ h.file
  · exact hnew.symm ▸ h.plain

namespace Gives

theorem add {s : Symbol} (hs : p.Fits known s) :
    Gives known p ⟨w, ∅, {s.nameSpan.start}⟩ (Declare.add s) fun i => {i} := by
  refine run fun t ht hfree hk => ⟨?_, ?_⟩
  · exact grows_add ht hfree (hs.hasSymbol hfree.place hk) hs.file hs.parent rfl
  · rw [t.add_eq hs.parent]
    rintro i rfl
    refine hs.owns.mono (SymbolTable.extends_modifyScope ?_ _ _)
    exact fun _ => rfl

theorem declareNamespace (name : String) (span : Span) :
    Fills known p ⟨w, ∅, {span.start}⟩ (Declare.run (·.declareNamespace name p.scope span)) :=
  run fun _ ht hfree _ => ⟨grows_declareNamespace ht hfree name rfl, nofun⟩

theorem modifyScope {f : Scope → Scope} (hcore : ∀ s, (f s).core = s.core)
    (hchildren : ∀ s, (f s).children = s.children)
    (hcontext : ∀ s, (f s).classContext = s.classContext)
    (hmembers : ∀ s, (f s).members = s.members) :
    Fills known p ⟨w, r, n⟩ (change (·.modifyScope p.scope f)) :=
  run fun _ ht hfree _ => ⟨grows_modifyScope ht hfree.place hcore hchildren hcontext
    fun _ hm => .inl (hmembers _ ▸ hm), nofun⟩

theorem setFlags (f : SymbolFlags → SymbolFlags) (i : SymbolId) :
    Fills known p ⟨w, r, n⟩ (change (·.modifySymbol i fun s => { s with flags := f s.flags })) :=
  run fun t ht _ _ => ⟨.of_extends (t.extends_setFlags f i) (ht.setFlags f i) rfl
    (t.size_modifySymbol i _), nofun⟩

theorem addOutOfLine {s : Symbol} {f : SymbolId → Declaring α} {given : α → Set SymbolId}
    (hs : p.Fits known s) (hfunction : s.kind.isFunction = true)
    (hf : ∀ i, Gives (known ∪ {i}) p ⟨w, r, n⟩ (f i) given) (hn : s.nameSpan.start ∉ n) :
    Gives known p ⟨w, r, insert s.nameSpan.start n⟩ (do
      let i ← Declare.run (·.addDetached s)
      change fun t => { t with outOfLine := t.outOfLine ++ [i] }
      f i) given := by
  refine andThen (m := Declare.run (·.addOutOfLine s)) (run fun t ht hfree hk => ⟨?_, ?_⟩) hf hn
  · have hg := grows_addDetached ht hfree (hs.hasSymbol hfree.place hk) hs.file rfl
    have hi : (t.addDetached s).2.HasFunction t.symbols.size := by
      refine ⟨hs.owns.lt, ?_⟩
      rw [t.symbol_addDetached, if_pos rfl]
      exact hfunction
    exact hg.trans (.of_extends (SymbolTable.extends_putOutOfLine _ _)
      (hg.sound.putOutOfLine hi) rfl rfl)
  · rintro i rfl
    exact hs.owns.mono (SymbolTable.extends_putOutOfLine _ _)

end Gives

section enter

variable {kind : ScopeKind} {owner : Option SymbolId} {span : Span}
  (hfree : Free t p ⟨w, span.offsets, n⟩)

include hfree

theorem grows_addScope (h : t.Sound) (hspan : span.Within w)
    (howner : ∀ o, owner = some o → kind ≠ .namespaceBlock → t.Owns p.file o) :
    Grows p.file span.offsets n t (t.addScope kind p.scope owner span).2 where
  toExtends := t.extends_addScope kind p.scope owner span
  sound :=
    h.addScope kind p.scope owner span hfree.place (hspan.trans hfree.within) hfree.room howner
  newScope i hle hlt := by
    rw [t.size_scopes_addScope] at hlt
    obtain rfl : i = t.scopes.size := Nat.le_antisymm (Nat.le_of_lt_succ hlt) hle
    rw [t.scope_addScope_self]
    exact ⟨hfree.place.file, subset_rfl⟩
  newSymbol _ hle hlt := absurd hlt (Nat.not_lt.mpr ((t.size_symbols_addScope ..).symm ▸ hle))

theorem Free.addScope (hg : Grows p.file span.offsets n t (t.addScope kind p.scope owner span).2) :
    Free (t.addScope kind p.scope owner span).2 ⟨p.file, t.scopes.size⟩
      ⟨span, span.offsets, n⟩ := by
  have hself := t.scope_addScope_self kind p.scope owner span
  have hsize := t.size_scopes_addScope kind p.scope owner span
  have hsymbols := t.size_symbols_addScope kind p.scope owner span
  generalize (t.addScope kind p.scope owner span).2 = t' at *
  constructor
  · refine ⟨hsize ▸ Nat.lt_succ_self _, ?_⟩
    rw [hself]
    exact hfree.place.file
  · rw [hself]
    exact .refl span
  · intro i o hi ho ho'
    rcases Nat.lt_or_ge i t.scopes.size with hlt | hge
    · obtain ⟨-, -, -, hfile, hspan⟩ := Scope.core_inj (hg.scope i hlt)
      have hpi := hfree.room i o ⟨hlt, hfile.symm.trans hi.file⟩ ho (hspan ▸ ho')
      refine .head ?_ (hg.around hpi)
      rw [hself]
      rfl
    · have hlt := hi.lt
      rw [hsize] at hlt
      obtain rfl : i = t.scopes.size := Nat.le_antisymm (Nat.le_of_lt_succ hlt) hge
      exact .refl
  · intro i hi hfile hstart
    rw [t'.mem_declared, hsymbols] at hi
    obtain ⟨-, -, hf, hname, -⟩ := Symbol.core_inj (hg.symbol i hi.2)
    exact hfree.names i (t.mem_declared.mpr hi) (hf.symm.trans hfile) (hname ▸ hstart)

end enter

/-- What is declared in a scope that is entered has the ground of the scope. -/
theorem Gives.enter {kind : ScopeKind} {owner : Option SymbolId} {span : Span}
    {body : Place → Declaring α} {given : α → Set SymbolId} (hspan : span.Within w)
    (howner : ∀ o, owner = some o → kind ≠ .namespaceBlock → o ∈ known)
    (hbody : ∀ scope, Gives known ⟨p.file, scope⟩ ⟨span, span.offsets, n⟩ (body ⟨p.file, scope⟩)
      given) : Gives known p ⟨w, span.offsets, n⟩ (p.enter kind owner span >>= body) given := by
  have hin {s : State} (hs : s.table.Sound) (hfree : Free s.table p ⟨w, span.offsets, n⟩)
      (hk : ∀ i ∈ known, s.table.Owns p.file i) :
      Grows p.file span.offsets n s.table (s.table.addScope kind p.scope owner span).2 :=
    grows_addScope hfree hs hspan fun o ho hne => hk o (howner o ho hne)
  constructor
  · intro s hs hfree hk
    have hg := hin hs hfree hk
    rw [enter_run, s.table.addScope_fst]
    exact hg.trans ((hbody s.table.scopes.size).grows ⟨_, s.access⟩ hg.sound (.addScope hfree hg)
      fun i hi => (hk i hi).mono hg.toExtends)
  · intro s hs hfree hk
    have hg := hin hs hfree hk
    rw [enter_run, s.table.addScope_fst]
    exact (hbody s.table.scopes.size).owns ⟨_, s.access⟩ hg.sound (.addScope hfree hg)
      fun i hi => (hk i hi).mono hg.toExtends

end CppRefactor.Declare
