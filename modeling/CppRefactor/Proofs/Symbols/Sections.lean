import CppRefactor.Proofs.Symbols.Blocks

/-!
The sections of a class. The walk that declares its members comes to each of them with the access
level of the section it stands in, since nothing but a specifier changes the level for good.
-/

namespace CppRefactor

/-- The members of a class behind an access specifier, up to the next one. -/
structure Section where
  access : Access
  isSignalsOrSlots : Bool
  deriving DecidableEq

namespace Section

def plain (access : Access) : Section := ⟨access, false⟩

/-- The section that a specifier begins. -/
def begunBy (m : Tree) : Section := ⟨AccessSection.access m, AccessSection.isSignalsOrSlots m⟩

/-- The section that an item behind this section stands in. -/
def next (s : Section) (m : Tree) : Section := if m.kind == .accessSpec then begunBy m else s

/-- The section behind items. -/
def behind (s : Section) (ms : List Tree) : Section := ms.foldl next s

/-- The sections that items stand in. -/
def each : Section → List Tree → List Section
  | _, [] => []
  | s, m :: ms => s.next m :: each (s.next m) ms

/-- Behind a section the class ends, or another section begins. -/
inductive Ends : List Tree → Prop
  | close : Ends []
  | specifier (m : Tree) (ms : List Tree) (hm : (m.kind == .accessSpec) = true) : Ends (m :: ms)

variable {access : Access} {s : Section} {m : Tree} {ms front behind : List Tree}

theorem next_specifier (hm : (m.kind == .accessSpec) = true) (s : Section) :
    s.next m = begunBy m := if_pos hm

theorem next_member (hm : (m.kind == .accessSpec) = false) (s : Section) : s.next m = s := by
  rw [next, hm]
  rfl

theorem each_append (s : Section) (ms ns : List Tree) :
    s.each (ms ++ ns) = s.each ms ++ (s.behind ms).each ns := by
  induction ms generalizing s with
  | nil => rfl
  | cons m ms ih => exact congrArg (s.next m :: ·) (ih (s.next m))

theorem length_each (s : Section) (ms : List Tree) : (s.each ms).length = ms.length := by
  induction ms generalizing s with
  | nil => rfl
  | cons m ms ih => exact congrArg Nat.succ (ih (s.next m))

theorem each_members (h : ∀ m ∈ ms, (m.kind == .accessSpec) = false) (s : Section) :
    s.each ms = .replicate ms.length s := by
  induction ms with
  | nil => rfl
  | cons m ms ih =>
    obtain ⟨hm, hms⟩ := List.forall_mem_cons.mp h
    rw [each, next_member hm, ih hms]
    rfl

/-- What stands before a specifier does not matter to the sections from it on. -/
theorem Ends.each_eq (h : Ends ms) (s s' : Section) : s.each ms = s'.each ms := by
  cases h with
  | close => rfl
  | specifier m ms hm => rw [each, each, next_specifier hm, next_specifier hm]

/-- Where a section ends, new items do not change the sections that the old ones stand in. -/
theorem each_insert (s : Section) (hends : Ends behind) :
    s.each (front ++ ms ++ behind) =
      s.each front ++ (s.behind front).each ms ++ (s.each (front ++ behind)).drop front.length := by
  rw [each_append, each_append, each_append s front behind, ← length_each s front, List.drop_left]
  exact congrArg _ (hends.each_eq ..)

end Section

namespace Tree

/-- The walk comes to the item by way of another one, and stays in the same class. -/
inductive Carries (t u : Tree) : Prop
  | item (ht : t.kind = .templateDecl ∨ t.kind = .linkageSpec) (hu : t.item? = some u)
  | list (ht : t.kind = .linkageSpec ∨ t.kind = .namespaceDef) (body : Tree)
    (hbody : t.child? .declList = some body) (hu : u ∈ body.items)

/-- The item is an access specifier, or carries one. -/
inductive BeginsSection : Tree → Prop
  | here (ht : t.kind = .accessSpec) : BeginsSection t
  | inside (ht : t.Carries u) (hu : BeginsSection u) : BeginsSection t

end Tree

namespace Declare

/-- The access level is in the end what it was. -/
structure Steady (m : Declaring α) : Prop where
  access : ∀ s, (m.run s).2.access = s.access

namespace Steady

theorem pure (a : α) : Steady (Pure.pure a) := ⟨fun _ => rfl⟩

theorem bind {m : Declaring α} {f : α → Declaring β} (hm : Steady m) (hf : ∀ a, Steady (f a)) :
    Steady (m >>= f) :=
  ⟨fun s => ((hf _).access _).trans (hm.access s)⟩

theorem ite {c : Prop} [Decidable c] {m n : Declaring α} (hm : Steady m) (hn : Steady n) :
    Steady (if c then m else n) := by
  split
  · exact hm
  · exact hn

theorem get : Steady (MonadState.get : Declaring State) := ⟨fun _ => rfl⟩

theorem run (f : SymbolTable → α × SymbolTable) : Steady (Declare.run f) :=
  ⟨fun _ => rfl⟩

theorem discard {m : Declaring α} (hm : Steady m) : Steady (discard m) :=
  ⟨hm.access⟩

theorem forM {f : α → Declaring PUnit} {as : List α} (h : ∀ a ∈ as, Steady (f a)) :
    Steady (as.forM f) := by
  induction as with
  | nil => exact pure ()
  | cons a as ih =>
    exact bind (h a List.mem_cons_self) fun _ => ih fun b hb => h b (List.mem_cons_of_mem a hb)

theorem withAccess (access : Option Access) (body : Declaring Unit) :
    Steady (withAccess access body) :=
  ⟨fun _ => rfl⟩

theorem isClassBody (p : Place) : Steady p.isClassBody := .bind .get fun _ => .pure _

theorem memberAccess (p : Place) : Steady p.memberAccess :=
  .bind (.isClassBody p) fun _ => .ite (.bind .get fun _ => .pure _) (.pure _)

end Steady

variable (go : Place → Visit → Declaring Unit) (p : Place) (t : Tree) (params : List String)
  (outer : Tree)

theorem enterNamespaces_steady (span : Span) (isInline : Bool) (names : List (String × Span)) :
    Steady (enterNamespaces span isInline names p) := by
  refine ⟨fun s => ?_⟩
  rw [enterNamespaces_run]

theorem declareForward_steady : Steady (declareForward p t params outer) := by
  unfold declareForward
  split
  · exact .pure ()
  · refine .ite ?_ (.pure ())
    split
    · exact .pure ()
    · exact .bind .get fun _ => .discard (.run _)

theorem declareClass_steady : Steady (declareClass go p t params outer) := by
  unfold declareClass
  refine .bind .get fun _ => .bind (.run _) fun _ => ?_
  split
  · exact .pure none
  · refine .bind (.bind (.run _) fun _ => .pure _) fun _ => ?_
    exact .bind (.withAccess _ _) fun _ => .pure _

theorem declareEnum_steady : Steady (declareEnum p t outer) := by
  unfold declareEnum
  refine .bind .get fun _ => .bind (.run _) fun _ => ?_
  split
  · exact .pure none
  · refine .bind (.bind (.run _) fun _ => .pure _) fun _ => ?_
    refine .bind (.forM fun e _ => ?_) fun _ => .pure _
    split
    · exact .discard (.run _)
    · exact .pure ()

theorem declareDeclarator_steady (target : Option SymbolId) (d : Tree) :
    Steady (declareDeclarator p t target params outer d) := by
  unfold declareDeclarator
  split
  · exact .bind (.isClassBody p) fun _ => .bind (.memberAccess p) fun _ => .discard (.run _)
  · exact .pure ()

theorem declareSimple_steady : Steady (declareSimple go p t params outer) := by
  unfold declareSimple
  split
  · exact .pure ()
  · rename_i specs _
    have hrest (target : Option SymbolId) : Steady <|
        ((t.childrenOf .initDeclarator).filterMap Tree.declarator?).forM
          (declareDeclarator p specs target params outer) :=
      .forM fun d _ => declareDeclarator_steady ..
    dsimp only
    split
    · exact .bind (declareClass_steady ..) hrest
    · exact .bind (declareEnum_steady ..) hrest
    · have hnone := Steady.bind (.pure none) hrest
      exact .ite (.bind (declareForward_steady ..) fun _ => hnone) hnone
    · exact .bind (.pure none) hrest

theorem functionSymbol_steady (declarator : Tree) (segment : Name.Segment) (qualified : Bool)
    (path : Option TypePath) :
    Steady (functionSymbol p t declarator segment qualified path params outer) := by
  refine .bind (.isClassBody p) fun _ => .bind (.memberAccess p) fun _ => ?_
  dsimp only
  split
  · exact .pure _
  · exact .pure _

theorem declareFunction_steady : Steady (declareFunction go p t params outer) := by
  unfold declareFunction
  split
  · dsimp only
    split
    · exact .pure ()
    · have hbody (id : SymbolId) (span : Span) {body : Place → Declaring Unit} :
          Steady (p.enter .function (some id) span >>= fun inner => withAccess none (body inner)) :=
        .bind (.bind (.run _) fun _ => .pure _) fun _ => .withAccess _ _
      refine .bind (functionSymbol_steady ..) fun _ => .ite ?_ ?_
      · exact .bind (.run _) fun id => .ite (.bind (.run _) fun _ => hbody id _) (hbody id _)
      · exact .bind (.run _) fun id => .ite (.bind (.run _) fun _ => hbody id _) (hbody id _)
  · exact .pure ()

theorem declareAlias_steady : Steady (declareAlias p t params outer) := by
  unfold declareAlias
  split
  · exact .pure ()
  · exact .bind .get fun _ => .discard (.run _)

theorem declareNamespaceAlias_steady : Steady (declareNamespaceAlias p t outer) := by
  unfold declareNamespaceAlias
  split
  · exact .discard (.run _)
  · exact .pure ()

variable {go t}

theorem declareItem_steady (ht : t.kind ≠ .accessSpec)
    (hgo : ∀ u, t.Carries u → ∀ p params outer, Steady (go p (.item u params outer))) :
    Steady (declareItem go p t params outer) := by
  unfold declareItem
  split
  · rename_i hk
    unfold declareNamespace
    split
    · exact .pure ()
    · rename_i body hbody
      refine .bind (enterNamespaces_steady ..) fun _ => .forM fun u hu => ?_
      exact hgo u (.list (.inr hk) body hbody hu) ..
  · exact declareNamespaceAlias_steady ..
  · rename_i hk
    split
    · rename_i body hbody
      exact .forM fun u hu => hgo u (.list (.inl hk) body hbody hu) ..
    · rename_i u _ hu
      exact hgo u (.item (.inr hk) hu) ..
    · exact .pure ()
  · split
    · exact .run _
    · exact .pure ()
  · split
    · exact .run _
    · exact .pure ()
  · exact declareAlias_steady ..
  · rename_i hk
    split
    · rename_i u hu
      exact hgo u (.item (.inl hk) hu) ..
    · exact .pure ()
  · exact declareSimple_steady ..
  · exact declareFunction_steady ..
  · rename_i hk
    exact absurd hk ht
  · exact .pure ()

theorem visit_steady (n : Nat) (ht : ¬ t.BeginsSection) :
    Steady (visit n p (.item t params outer)) := by
  induction n generalizing p t params outer with
  | zero => exact .pure ()
  | succ n ih =>
    refine declareItem_steady p params outer (fun hk => ht (.here hk)) fun u hu p params outer => ?_
    exact ih p params outer fun hu' => ht (.inside hu hu')

theorem withAccess_run (access : Option Access) (body : Declaring Unit) (s : State) :
    (withAccess access body).run s = ((), ⟨(body.run ⟨s.table, access⟩).2.table, s.access⟩) :=
  rfl

/-- Behind an item of a class, the walk is at the level of the section that the item stands in, and
the item is declared as at that level. -/
theorem visit_member (n : Nat) (table : SymbolTable) (sec : Section)
    (h : t.BeginsSection → t.kind = .accessSpec) :
    (visit (n + 1) p (.ofItem t)).run ⟨table, some sec.access⟩ =
      ((), ⟨((visit (n + 1) p (.ofItem t)).run ⟨table, some (sec.next t).access⟩).2.table,
        some (sec.next t).access⟩) := by
  by_cases hk : t.kind = .accessSpec
  · have hvisit : visit (n + 1) p (.ofItem t) =
        modify ({ · with access := some (AccessSection.access t) }) := by
      rw [Visit.ofItem, visit, declareItem, hk]
    rw [hvisit, Section.next_specifier (beq_iff_eq.mpr hk)]
    rfl
  · have hsteady := visit_steady p [] t (n + 1) fun ht => hk (h ht)
    rw [Section.next_member (beq_eq_false_iff_ne.mpr hk)]
    exact Prod.ext rfl (congrArg (State.mk _) (hsteady.access ⟨table, some sec.access⟩))

/-- The members of a class are declared each at the level of the section it stands in, unless a
specifier stands inside of an item. -/
theorem withAccess_members (n : Nat) (ms : List Tree) (sec : Section)
    (h : ∀ m ∈ ms, m.BeginsSection → m.kind = .accessSpec) :
    withAccess (some sec.access) (ms.forM fun m => visit (n + 1) p (.ofItem m)) =
      ((sec.each ms).zip ms).forM fun (level, m) =>
        withAccess (some level.access) (visit (n + 1) p (.ofItem m)) := by
  apply StateT.ext
  intro s
  induction ms generalizing sec s with
  | nil => rfl
  | cons m ms ih =>
    obtain ⟨hm, hms⟩ := List.forall_mem_cons.mp h
    have hrest := ih (sec.next m) hms
      ((withAccess (some (sec.next m).access) (visit (n + 1) p (.ofItem m))).run s).2
    have hfirst (s : State) : ((m :: ms).forM fun m => visit (n + 1) p (.ofItem m)).run s =
        (ms.forM fun m => visit (n + 1) p (.ofItem m)).run
          ((visit (n + 1) p (.ofItem m)).run s).2 := rfl
    refine Eq.trans ?_ hrest
    rw [withAccess_run, hfirst, visit_member p n s.table sec hm]
    rfl

end Declare

end CppRefactor
