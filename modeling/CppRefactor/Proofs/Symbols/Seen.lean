import CppRefactor.Proofs.Project.Closure
import CppRefactor.Proofs.Symbols.Outside
import CppRefactor.Proofs.Symbols.Placement

/-!
Which files lookups lead to. Namespaces apart, all that a lookup answers is in a file that is seen
from its place, if what a forward declaration stands for always is. A forward declaration leads to
its definition in whatever file that is.
-/

namespace CppRefactor

theorem SymbolKind.isFunction_apart {k : SymbolKind} (h : k.isFunction = true) :
    k.isClass = false ∧ (k == .enumKind) = false ∧ (k == .namespaceKind) = false := by
  cases k
  case function | method => exact ⟨rfl, rfl, rfl⟩
  all_goals cases h

namespace SymbolTable

variable (t : SymbolTable)

/-- A namespace, or a symbol of a file that is seen. -/
def Sees (file : FileId) (i : SymbolId) : Prop :=
  (t.symbol i).isNamespace = true ∨ t.isSeenFrom file (t.symbol i).file = true

def SeesAll (file : FileId) (found : List SymbolId) : Prop := ∀ i ∈ found, t.Sees file i

/-- The site is in a scope of its file. -/
def Holds (s : Site) : Prop := (t.scope s.scope).file = s.file

/-- What a class or an enumeration that is declared ahead may stand for is seen from there: what is
defined under its name as a class, or as anything else if it is an enumeration. -/
def ForwardsSeen : Prop :=
  ∀ i j, ((t.symbol i).kind.isClass || (t.symbol i).kind == .enumKind) = true →
    (t.symbol i).flags.isDefinition = false → (t.symbol j).flags.isDefinition = true →
    (t.symbol j).name = (t.symbol i).name →
    (t.symbol j).kind.isClass = (t.symbol i).kind.isClass → t.Sees (t.symbol i).file j

/-- What the lookups in a table rely on. -/
structure Orderly : Prop extends t.SymbolsIndexed where
  scope (i : ScopeId) : t.HasScope (t.scope i)
  symbol (i : SymbolId) : t.HasSymbol (t.symbol i)
  parent : (t.scope i).parent = some p → (t.scope i).file = (t.scope p).file
  context : (t.scope i).classContext = some c →
    t.isSeenFrom (t.scope i).file (t.scope c).file = true
  global : (t.symbol global).isNamespace = true
  trans : t.isSeenFrom file target = true → t.isSeenFrom target other = true →
    t.isSeenFrom file other = true
  forwards : t.ForwardsSeen

variable {t} {file target : FileId} {found more : List SymbolId}

theorem isSeenFrom_refl (t : SymbolTable) (file : FileId) : t.isSeenFrom file file = true := by
  rw [isSeenFrom, beq_self_eq_true, Bool.true_or]

theorem Has.sees (h : t.Has target i) (hs : t.isSeenFrom file target = true) : t.Sees file i := by
  rcases h.file with hn | hf
  · exact .inl hn
  · exact .inr (hf.symm ▸ hs)

theorem Owns.sees (h : t.Owns target i) (hs : t.isSeenFrom file target = true) : t.Sees file i :=
  .inr (h.file.symm ▸ hs)

theorem Sees.trans (ht : t.Orderly) (hs : t.isSeenFrom file target = true) (h : t.Sees target i) :
    t.Sees file i :=
  h.imp_right (ht.trans hs)

theorem Sees.plain (h : t.Sees file i) (hplain : (t.symbol i).isNamespace = false) :
    t.isSeenFrom file (t.symbol i).file = true :=
  h.resolve_left (Bool.not_eq_true _ ▸ hplain)

/-- What has a scope is no namespace, and the scope is where it is declared. -/
theorem Sees.scope (ht : t.Orderly) (h : t.Sees file i) (hb : (t.symbol i).scope = some body) :
    t.isSeenFrom file (t.scope body).file = true := by
  obtain ⟨hplain, hin⟩ := (ht.symbol i).body body hb
  rw [hin.file]
  exact h.plain hplain

namespace SeesAll

theorem nil : t.SeesAll file [] := nofun

theorem append (h : t.SeesAll file found) (h' : t.SeesAll file more) :
    t.SeesAll file (found ++ more) :=
  fun i hi => (List.mem_append.mp hi).elim (h i) (h' i)

theorem distinct (h : t.SeesAll file found) : t.SeesAll file (distinct found) :=
  fun i hi => h i (mem_distinct.mp hi)

theorem foldl {f : Search → α → Search} (as : List α) {s : Search}
    (hf : ∀ s, ∀ a ∈ as, t.SeesAll file s.found → t.SeesAll file (f s a).found)
    (h : t.SeesAll file s.found) : t.SeesAll file (as.foldl f s).found := by
  induction as generalizing s with
  | nil => exact h
  | cons a as ih =>
    exact ih (fun s b hb => hf s b (List.mem_cons_of_mem a hb)) (hf s a List.mem_cons_self h)

end SeesAll

theorem classScopes_file (ht : t.Orderly) (n : Nat) (id : ScopeId) :
    (∀ s ∈ (t.classScopes n id).1, (t.scope s).file = (t.scope id).file) ∧
      ∀ s, (t.classScopes n id).2 = some s → (t.scope s).file = (t.scope id).file := by
  induction n generalizing id with
  | zero => exact ⟨List.forall_mem_nil _, fun s hs => Option.some.inj hs ▸ rfl⟩
  | succ n ih =>
    unfold classScopes
    split
    · exact ⟨List.forall_mem_nil _, fun s hs => Option.some.inj hs ▸ rfl⟩
    · split
      · exact ⟨fun s hs => List.mem_singleton.mp hs ▸ rfl,
          fun s hs => absurd hs.symm (Option.some_ne_none s)⟩
      · rename_i p hp
        obtain ⟨hinner, hrest⟩ := ih p
        rw [ht.parent hp]
        refine ⟨fun s hs => ?_, hrest⟩
        rcases List.mem_cons.mp hs with rfl | hs
        · exact ht.parent hp
        · exact hinner s hs

theorem stepFrom_seen (ht : t.Orderly) (id : ScopeId) :
    (∀ s ∈ (t.stepFrom id).1, t.isSeenFrom (t.scope id).file (t.scope s).file = true) ∧
      ∀ s, (t.stepFrom id).2 = some s →
        t.isSeenFrom (t.scope id).file (t.scope s).file = true := by
  unfold stepFrom
  split
  · rename_i c hc
    obtain ⟨hinner, hrest⟩ := classScopes_file ht t.scopes.size c
    exact ⟨fun s hs => hinner s hs ▸ ht.context hc, fun s hs => hrest s hs ▸ ht.context hc⟩
  · exact ⟨nofun, fun s hs => ht.parent hs ▸ t.isSeenFrom_refl _⟩

theorem chainFrom_seen (ht : t.Orderly) (n : Nat) (passed : List ScopeId) (id : ScopeId) :
    ∀ s ∈ t.chainFrom n passed id,
      s ∈ passed ∨ t.isSeenFrom (t.scope id).file (t.scope s).file = true := by
  induction n generalizing passed id with
  | zero => exact fun s hs => .inl hs
  | succ n ih =>
    intro s hs
    cases hc : passed.contains id with
    | true =>
      rw [chainFrom_contains t (n + 1) hc] at hs
      exact .inl hs
    | false =>
      rw [chainFrom_step t n hc] at hs
      obtain ⟨hinner, hrest⟩ := stepFrom_seen ht id
      have hpassed (hs : s ∈ passed ++ id :: (t.stepFrom id).1) :
          s ∈ passed ∨ t.isSeenFrom (t.scope id).file (t.scope s).file = true := by
        rcases List.mem_append.mp hs with hs | hs
        · exact .inl hs
        · rcases List.mem_cons.mp hs with rfl | hs
          · exact .inr (t.isSeenFrom_refl _)
          · exact .inr (hinner s hs)
      cases ho : (t.stepFrom id).2 with
      | none =>
        rw [ho] at hs
        exact hpassed hs
      | some outer =>
        rw [ho] at hs
        rcases ih _ outer s hs with hs | hs
        · exact hpassed hs
        · exact .inr (ht.trans (hrest outer ho) hs)

theorem lookupOrder_seen (ht : t.Orderly) {id : ScopeId} (hs : s ∈ t.lookupOrder id) :
    t.isSeenFrom (t.scope id).file (t.scope s).file = true :=
  (chainFrom_seen ht _ _ _ s hs).resolve_left nofun

end SymbolTable

/-- The lookups of a level lead to what is seen. -/
structure Level.Seeing (t : SymbolTable) (l : Level) : Prop where
  unqualified (q : Query) (name : String) :
    t.Holds q.site → t.SeesAll q.site.file (l.unqualified q name)
  member (q : Query) (owner : SymbolId) (name : String) :
    t.Sees q.site.file owner → t.SeesAll q.site.file (l.member q owner name)
  path (q : Query) (path : TypePath) : t.Holds q.site → t.SeesAll q.site.file (l.path q path)
  target : l.target i = some j → t.Sees file i → t.Sees file j
  inNamespace (q : Query) (ns : SymbolId) (name : String) (s : Search) :
    t.SeesAll q.site.file s.found → t.SeesAll q.site.file (l.inNamespace q ns name s).found
  inClass (q : Query) (id : SymbolId) (name : String) :
    t.Sees q.site.file id → t.SeesAll q.site.file (l.inClass q id name)

theorem Level.deepest_seeing (t : SymbolTable) : Level.deepest.Seeing t where
  unqualified _ _ _ := .nil
  member _ _ _ _ := .nil
  path _ _ _ := .nil
  target := nofun
  inNamespace _ _ _ _ h := h
  inClass _ _ _ _ := .nil

namespace SymbolTable

section levels

variable {t : SymbolTable} {below : Level} (ht : t.Orderly) (hbelow : below.Seeing t)

include ht

theorem exposedEnumerators_seen {file : FileId} {m : SymbolId} (hm : t.Sees file m) :
    t.SeesAll file (t.exposedEnumerators m) := by
  unfold exposedEnumerators
  dsimp only
  split
  · split
    · rename_i body hb
      exact fun e he => ((ht.scope body).members e he).sees (hm.scope ht hb)
    · exact .nil
  · exact .nil

include hbelow

theorem inScope_seen (ordered : Bool) (q : Query) {id : ScopeId} (name : String)
    (hs : t.isSeenFrom q.site.file (t.scope id).file = true) :
    t.SeesAll q.site.file (t.inScope below ordered q id name) := by
  refine SeesAll.append (fun i hi => ?_) (fun i hi => ?_)
  · obtain ⟨m, hm, hi⟩ := List.mem_flatMap.mp (List.mem_filter.mp hi).1
    have hm := ((ht.scope id).members m (List.mem_filter.mp hm).1).sees hs
    rcases List.mem_cons.mp hi with rfl | hi
    · exact hm
    · exact exposedEnumerators_seen ht hm i hi
  · obtain ⟨d, -, hi⟩ := List.mem_flatMap.mp hi
    have hseen := hbelow.path { q with site := ⟨(t.scope id).file, id, d.offset⟩ } d.path rfl i hi
    exact hseen.trans ht hs

theorem type_sees {file target : FileId} {type : TypeRef} {path : TypePath} {filter : Filter}
    (h : t.HasType target type) (hs : t.isSeenFrom file target = true)
    (hi : (below.path ⟨type.site, filter, []⟩ path).head? = some i) : t.Sees file i := by
  have hholds : t.Holds type.site := h.scope.file.trans h.site.symm
  have hseen := hbelow.path ⟨type.site, filter, []⟩ path hholds i (List.mem_of_mem_head? hi)
  rw [h.site] at hseen
  exact hseen.trans ht hs

omit ht in
theorem inDirectives_seen (q : Query) (id : ScopeId) (name : String) {s : Search}
    (h : t.SeesAll q.site.file s.found) :
    t.SeesAll q.site.file (t.inDirectives below q id name s).found := by
  refine SeesAll.foldl _ (fun s d _ hs => ?_) h
  split
  · exact hbelow.inNamespace q _ name s hs
  · exact hs

theorem inNamespace_seen (q : Query) (ns : SymbolId) (name : String) {s : Search}
    (h : t.SeesAll q.site.file s.found) :
    t.SeesAll q.site.file (t.inNamespace below q ns name s).found := by
  unfold inNamespace
  split
  · exact h
  · have hblocks := SeesAll.foldl (f := t.inBlock below q name)
      ((t.blocks ns).filter fun b => t.isSeenFrom q.site.file (t.scope b).file)
      (s := { s with visited := s.visited ++ [ns] }) (fun s block hblock hs => ?_) h
    · dsimp only
      split
      · exact SeesAll.foldl _ (fun s b _ hs => inDirectives_seen hbelow q b name hs) hblocks
      · exact hblocks
    · have hblock := inScope_seen ht hbelow true q name (List.mem_filter.mp hblock).2
      exact SeesAll.foldl _ (fun s ns _ hs => hbelow.inNamespace q ns name s hs) (hs.append hblock)

omit hbelow in
theorem forward_sees {file : FileId} (hi : t.Sees file i)
    (hk : ((t.symbol i).kind.isClass || (t.symbol i).kind == .enumKind) = true)
    (hd : (t.symbol i).flags.isDefinition = false)
    (hfound : (t.withName (t.symbol i).name).find? (fun other =>
      (t.symbol other).flags.isDefinition &&
        (t.symbol other).kind.isClass == (t.symbol i).kind.isClass &&
        t.qualifiedName other == t.qualifiedName i) = some j) : t.Sees file j := by
  have hplain : (t.symbol i).isNamespace = false := by
    refine Bool.eq_false_iff.mpr fun hn => ?_
    rw [eq_of_beq hn] at hk
    cases hk
  have hname := (ht.mem_withName.mp (List.mem_of_find?_eq_some hfound)).2
  have hj := List.find?_some hfound
  simp only [Bool.and_eq_true, beq_iff_eq] at hj
  exact (ht.forwards i j hk hd hj.1.1 hname hj.1.2).trans ht (hi.plain hplain)

theorem targetAt_sees {file : FileId} (h : t.targetAt below i = some j) (hi : t.Sees file i) :
    t.Sees file j := by
  unfold targetAt at h
  dsimp only at h
  split at h
  · rename_i hk
    have hplain : t.isSeenFrom file (t.symbol i).file = true := by
      refine hi.plain (Bool.eq_false_iff.mpr fun hn => ?_)
      rw [eq_of_beq hn] at hk
      cases hk
    obtain ⟨type, htype, h⟩ := Option.bind_eq_some_iff.mp h
    have hhas := (ht.symbol i).type type htype
    split at h
    · rename_i target htarget
      exact hbelow.target h ((hhas.target target htarget).sees hplain)
    · obtain ⟨path, -, h⟩ := Option.bind_eq_some_iff.mp h
      obtain ⟨first, hfirst, h⟩ := Option.bind_eq_some_iff.mp h
      exact hbelow.target h (type_sees ht hbelow hhas hplain hfirst)
  · split at h
    · rename_i hk
      rw [Bool.and_eq_true, Bool.not_eq_true'] at hk
      obtain rfl := Option.some.inj h
      generalize hfound : List.find? _ _ = definition?
      cases definition? with
      | none => exact hi
      | some j => exact forward_sees ht hi hk.1 hk.2 hfound
    · exact Option.some.inj h ▸ hi

theorem inClass_seen (q : Query) {id : SymbolId} (name : String) (hid : t.Sees q.site.file id) :
    t.SeesAll q.site.file (t.inClass below q id name) := by
  unfold inClass
  split
  · exact .nil
  · rename_i target htarget
    have htarget := targetAt_sees ht hbelow htarget hid
    split
    · exact .nil
    · rename_i body hb
      have hbody := htarget.scope ht hb
      split
      · dsimp only
        generalize hfound : List.findSome? _ _ = found
        cases found with
        | none => exact .nil
        | some found =>
          obtain ⟨base, hmem, hbase⟩ := List.exists_of_findSome?_eq_some hfound
          obtain ⟨path, -, hbase⟩ := Option.bind_eq_some_iff.mp hbase
          obtain ⟨cls, hcls, hbase⟩ := Option.bind_eq_some_iff.mp hbase
          obtain ⟨-, -, hbase⟩ := Option.bind_eq_some_iff.mp hbase
          obtain rfl := Option.some.inj hbase
          have hhas := (ht.symbol target).bases base hmem
          rw [← ((ht.symbol target).body body hb).2.file] at hhas
          exact hbelow.inClass q cls name (type_sees ht hbelow hhas hbody hcls)
      · exact inScope_seen ht hbelow false q name hbody

theorem memberAt_seen (q : Query) (owner : SymbolId) (name : String)
    (hid : t.Sees q.site.file owner) : t.SeesAll q.site.file (t.memberAt below q owner name) := by
  unfold memberAt
  split
  · exact .nil
  · rename_i target htarget
    have htarget := targetAt_sees ht hbelow htarget hid
    dsimp only
    split
    · exact (inNamespace_seen ht hbelow q target name .nil).distinct
    · split
      · exact (inClass_seen ht hbelow q name htarget).distinct
      · split
        · split
          · rename_i body hb
            exact (inScope_seen ht hbelow false q name (htarget.scope ht hb)).distinct
          · exact .nil
        · exact .nil

theorem inChainScope_seen (q : Query) (name : String) (passed : List SymbolId) {id : ScopeId}
    (hs : t.isSeenFrom q.site.file (t.scope id).file = true) :
    t.SeesAll q.site.file (t.inChainScope below q name passed id) := by
  unfold inChainScope
  dsimp only
  split
  case h_1 | h_2 =>
    split
    · split
      · exact .nil
      · exact inNamespace_seen ht hbelow q _ name .nil
    · exact .nil
  case h_3 hk =>
    split
    · rename_i cls hcls
      have howns := (ht.scope id).owner cls hcls (isNamespaceBody_of_classBody t hk)
      exact inClass_seen ht hbelow q name (howns.sees hs)
    · exact .nil
  case h_4 => exact inScope_seen ht hbelow false q name hs
  case h_5 | h_6 =>
    split
    · exact inDirectives_seen hbelow q id name .nil
    · exact inScope_seen ht hbelow true q name hs

theorem alongChain_seen (q : Query) (name : String) (passed : List SymbolId)
    {scopes : List ScopeId}
    (hs : ∀ s ∈ scopes, t.isSeenFrom q.site.file (t.scope s).file = true) :
    t.SeesAll q.site.file (t.alongChain below q name passed scopes) := by
  induction scopes generalizing passed with
  | nil => exact .nil
  | cons id rest ih =>
    obtain ⟨hid, hs⟩ := List.forall_mem_cons.mp hs
    unfold alongChain
    split
    · exact ih _ hs
    · exact (inChainScope_seen ht hbelow q name passed hid).distinct

omit ht in
theorem pathBehind_seen (q : Query) (rest : List PathSegment) {found : List SymbolId}
    (h : t.SeesAll q.site.file found) :
    t.SeesAll q.site.file (t.pathBehind below q found rest) := by
  induction rest generalizing found with
  | nil => exact h
  | cons segment rest ih =>
    unfold pathBehind
    split
    · exact .nil
    · rename_i owner howner
      exact ih (hbelow.member { q with filter := _ } owner segment.name
        (h owner (List.mem_of_find?_eq_some howner)))

theorem pathAt_seen (q : Query) (path : TypePath) (hq : t.Holds q.site) :
    t.SeesAll q.site.file (t.pathAt below q path) := by
  unfold pathAt
  split
  · exact .nil
  · rename_i first rest _
    refine pathBehind_seen hbelow q rest ?_
    generalize (if rest.isEmpty then q.filter else Filter.scopes) = filter
    split
    · exact hbelow.member { q with filter } global first.name (.inl ht.global)
    · exact hbelow.unqualified { q with filter } first.name hq

theorem levelAbove_seeing : (t.levelAbove below).Seeing t where
  unqualified q name hq := alongChain_seen ht hbelow q name [] fun _ hs =>
    (show (t.scope q.site.scope).file = q.site.file from hq) ▸ lookupOrder_seen ht hs
  member q owner name hid := memberAt_seen ht hbelow q owner name hid
  path q path hq := pathAt_seen ht hbelow q path hq
  target h hi := targetAt_sees ht hbelow h hi
  inNamespace q ns name _ h := inNamespace_seen ht hbelow q ns name h
  inClass q _ name hid := inClass_seen ht hbelow q name hid

end levels

theorem level_seeing {t : SymbolTable} (ht : t.Orderly) (n : Nat) : (t.level n).Seeing t := by
  induction n with
  | zero => exact Level.deepest_seeing t
  | succ n ih => exact levelAbove_seeing ht ih

variable {t t' : SymbolTable}

theorem Linked.isNamespace_eq (h : t.Linked t') (i : SymbolId) :
    (t'.symbol i).isNamespace = (t.symbol i).isNamespace := by
  rcases h.symbol i with hs | ⟨hk, hs⟩
  · rw [hs]
  · rw [hs, Symbol.isNamespace, Symbol.isNamespace, (SymbolKind.isFunction_apart hk).2.2]
    rfl

theorem Linked.sees (h : t.Linked t') (hv : t'.visible = t.visible) :
    t'.Sees file i ↔ t.Sees file i := by
  have hfile := h.symbol_field (g := Symbol.file) (fun _ => rfl) i
  rw [Sees, Sees, h.isNamespace_eq, hfile, isSeenFrom, isSeenFrom, seenFrom, seenFrom, hv]

theorem Linked.refl (t : SymbolTable) : t.Linked t :=
  ⟨rfl, rfl, rfl, fun _ => rfl, fun _ => .inl rfl⟩

theorem Sound.hasScope (h : t.Sound) (i : ScopeId) : t.HasScope (t.scope i) := by
  rcases Nat.lt_or_ge i t.scopes.size with hlt | hge
  · exact h.scope i hlt
  · rw [t.scope_of_size_le hge]
    exact ⟨nofun, nofun⟩

theorem Sound.hasSymbol (h : t.Sound) (i : SymbolId) : t.HasSymbol (t.symbol i) := by
  rcases Nat.lt_or_ge i t.symbols.size with hlt | hge
  · exact h.symbol i hlt
  · rw [t.symbol_of_size_le hge]
    exact ⟨nofun, nofun, nofun, nofun⟩

theorem Linked.hasScope (h : t.Linked t') (ht : t.Sound) (i : ScopeId) :
    t'.HasScope (t'.scope i) := by
  have hold := (ht.hasScope i).mono h.toExtends
  obtain ⟨c, hc⟩ : ∃ c, t'.scope i = { t.scope i with classContext := c } :=
    ⟨_, congrArg (fun s => { s with classContext := (t'.scope i).classContext }) (h.scope i)⟩
  rw [hc]
  exact ⟨hold.members, hold.owner⟩

theorem Linked.hasSymbol (h : t.Linked t') (ht : t.Sound) (i : SymbolId) :
    t'.HasSymbol (t'.symbol i) := by
  have hold := (ht.hasSymbol i).mono h.toExtends
  rcases h.symbol i with hs | ⟨-, hs⟩
  · exact hs ▸ hold
  · rw [hs]
    exact ⟨fun b hb => ⟨rfl, (hold.body b hb).2⟩, hold.parent, hold.type, hold.bases⟩

/-- What lookups rely on holds of a sound table, also with links, if the classes that are searched
behind bodies are seen. -/
theorem Linked.orderly (h : t.Linked t') (ht : t.Sound) (hindexed : t'.Indexed)
    (hempty : SymbolTable.empty.Extends t)
    (hcontext : ∀ i c, (t'.scope i).classContext = some c →
      t'.isSeenFrom (t'.scope i).file (t'.scope c).file = true)
    (htrans : ∀ file target other, t'.isSeenFrom file target = true →
      t'.isSeenFrom target other = true → t'.isSeenFrom file other = true)
    (hforwards : t'.ForwardsSeen) : t'.Orderly where
  toSymbolsIndexed := hindexed.toSymbolsIndexed
  scope := h.hasScope ht
  symbol := h.hasSymbol ht
  parent := (h.nested ht.nested).file_eq
  context := hcontext _ _
  global := (h.isNamespace_eq global).trans
    (Symbol.core_inj (hempty.symbol global Nat.one_pos)).1
  trans := htrans _ _ _
  forwards := hforwards

theorem Linked.forwardsSeen (h : t.Linked t') (hv : t'.visible = t.visible)
    (hforwards : t'.ForwardsSeen) : t.ForwardsSeen := by
  intro i j hk hi hj hname hclass
  have hsame : t'.symbol i = t.symbol i := by
    refine (h.symbol i).resolve_right fun ⟨hf, _⟩ => ?_
    obtain ⟨hc, he, -⟩ := SymbolKind.isFunction_apart hf
    rw [hc, he] at hk
    cases hk
  rw [← h.sees hv, ← hsame]
  rw [← hsame] at hk hi hname hclass
  rcases h.symbol j with hs | ⟨hf, hs⟩
  · rw [← hs] at hj hname hclass
    exact hforwards i j hk hi hj hname hclass
  · refine hforwards i j hk hi ?_ ?_ ?_
    · rw [hs]
      exact hj
    · rw [hs]
      exact hname
    · rw [hs, ← hclass, (SymbolKind.isFunction_apart hf).1]
      rfl

theorem qualifiedOwner_sees (ht : t.Orderly) (h : t.qualifiedOwner? d = some o) :
    t.Sees (t.symbol d).file o := by
  obtain ⟨qualifier, -, h⟩ := Option.bind_eq_some_iff.mp h
  obtain ⟨p, hp, h⟩ := Option.bind_eq_some_iff.mp h
  obtain ⟨found, hfound, h⟩ := Option.bind_eq_some_iff.mp h
  have hlevel := level_seeing ht lookupDepth
  have hholds : t.Holds ⟨(t.symbol d).file, p, (t.symbol d).nameSpan.start⟩ :=
    ((ht.symbol d).parent p hp).file
  exact hlevel.target h (hlevel.path ⟨_, .scopes, []⟩ qualifier hholds found
    (List.mem_of_mem_head? hfound))

/-- The class that is searched behind the body of its member is seen from there. -/
theorem Sound.context_seen (h : t.Sound) (ht : t.Orderly) {i c : ScopeId}
    (hc : (t.withLinks.scope i).classContext = some c) :
    t.isSeenFrom (t.scope i).file (t.scope c).file = true := by
  suffices hall : t.Linked t.withLinks ∧ ∀ i c, (t.withLinks.scope i).classContext = some c →
      t.isSeenFrom (t.scope i).file (t.scope c).file = true from hall.2 i c hc
  refine withLinks_induction (P := fun t' => t.Linked t' ∧ ∀ i c,
      (t'.scope i).classContext = some c → t.isSeenFrom (t.scope i).file (t.scope c).file = true)
    ⟨.refl t, fun i c hc => nomatch (h.context i).symm.trans hc⟩ ?_
    fun t' _ _ ⟨hl, hc⟩ => ⟨⟨hl.scopes, hl.symbols, hl.namespaceIndex, hl.scope, hl.symbol⟩, hc⟩
  intro t' b hb ho ⟨hl, hcontext⟩
  refine ⟨hl.attach h hb, fun i c hc => ?_⟩
  unfold attach at hc
  dsimp only at hc
  split at hc
  · split at hc
    · rename_i cls body hcls hbody
      rw [scope_modifyScope] at hc
      split at hc
      · rename_i hi
        obtain rfl := Option.some.inj hc
        rw [hl.symbol_field (g := Symbol.scope) fun _ => rfl] at hcls hbody
        have hseen := (qualifiedOwner_sees ht ho).scope ht hcls
        rwa [← ((ht.symbol _).body body hbody).2.file, ← hi.1] at hseen
      · exact hcontext i c hc
    · exact hcontext i c hc
  · exact hcontext i c hc

theorem isSeenFrom_withLinks (t : SymbolTable) (file target : FileId) :
    t.withLinks.isSeenFrom file target = t.isSeenFrom file target := by
  have hvisible : t.withLinks.visible = t.visible := (visible_growth _).withLinks rfl
  rw [isSeenFrom, isSeenFrom, seenFrom, seenFrom, hvisible]

section

variable (h : t.Sound) (hindexed : t.Indexed) (hempty : SymbolTable.empty.Extends t)
  (htrans : ∀ file target other, t.withLinks.isSeenFrom file target = true →
    t.withLinks.isSeenFrom target other = true → t.withLinks.isSeenFrom file other = true)
  (hforwards : t.withLinks.ForwardsSeen)

include h hindexed hempty htrans hforwards

theorem Sound.orderly : t.Orderly := by
  simp only [isSeenFrom_withLinks] at htrans
  refine (Linked.refl t).orderly h hindexed hempty (fun i c hc => ?_) htrans
    (h.linked.forwardsSeen ((visible_growth _).withLinks rfl) hforwards)
  exact absurd (hc.symm.trans (h.context i)) (Option.some_ne_none c)

theorem Sound.withLinks_orderly : t.withLinks.Orderly := by
  have hfile (i : ScopeId) : (t.withLinks.scope i).file = (t.scope i).file :=
    (Scope.core_inj (h.linked.scope_eq i).1).2.2.2.1
  refine h.linked.orderly h (indexed_invariant.withLinks hindexed) hempty (fun i c hc => ?_) htrans
    hforwards
  rw [isSeenFrom_withLinks, hfile, hfile]
  exact h.context_seen (h.orderly hindexed hempty htrans hforwards) hc

end

end SymbolTable

theorem symbols_seen_trans (searchPaths : List Path) (headers : List Header)
    (documents : PathMap Document) (file target other : FileId) :
    let t := (Snapshot.ofDocuments searchPaths headers documents).symbols
    t.isSeenFrom file target = true → t.isSeenFrom target other = true →
      t.isSeenFrom file other = true :=
  fun h h' => isSeenFrom_iff.mpr ((isSeenFrom_iff.mp h).trans (isSeenFrom_iff.mp h'))

/-- Namespaces apart, what a lookup answers is declared in a file that is seen from the place of the
lookup: the file itself or one that it includes through others. This takes that what a forward
declaration may stand for is seen from it. -/
theorem lookups_seen (searchPaths : List Path) (headers : List Header)
    (documents : PathMap Document) :
    let s := Snapshot.ofDocuments searchPaths headers documents
    s.symbols.ForwardsSeen → ∀ q, s.symbols.Holds q.site →
      (∀ name, ∀ i ∈ s.symbols.lookup q name, (s.symbols.symbol i).isNamespace = false →
        Relation.ReflTransGen s.graph.Includes q.site.file (s.symbols.symbol i).file) ∧
      ∀ path, ∀ i ∈ s.symbols.lookupPath q path, (s.symbols.symbol i).isNamespace = false →
        Relation.ReflTransGen s.graph.Includes q.site.file (s.symbols.symbol i).file := by
  intro s hforwards q hq
  obtain ⟨hsound, hempty⟩ := unlinkedSymbols_sound searchPaths documents
  have horderly : s.symbols.Orderly :=
    hsound.withLinks_orderly (SymbolTable.indexed_unlinked ..) hempty
      (symbols_seen_trans searchPaths headers documents) hforwards
  have hlevel := SymbolTable.level_seeing horderly SymbolTable.lookupDepth
  exact ⟨fun name i hi hplain =>
      isSeenFrom_iff.mp ((hlevel.unqualified q name hq i hi).plain hplain),
    fun path i hi hplain => isSeenFrom_iff.mp ((hlevel.path q path hq i hi).plain hplain)⟩

/-- A class that is declared ahead is searched where it is defined, in a file that is not
included. -/
theorem definition_not_included :
    let s := Snapshot.ofDocuments [] [] ⟨[
      (.ofString "/a.cpp", ⟨"class A;\nint n = A::x;\n", 0⟩),
      (.ofString "/b.h", ⟨"class A \x7b public: static int x; \x7d;\n", 0⟩)]⟩
    let q : Query := ⟨⟨0, 0, 19⟩, .any, []⟩
    s.symbols.siteAt? 0 19 = some q.site ∧
      ∃ i ∈ s.symbols.lookupPath q ⟨false, [⟨"A", []⟩, ⟨"x", []⟩]⟩,
        (s.symbols.symbol i).isNamespace = false ∧
          ¬ Relation.ReflTransGen s.graph.Includes q.site.file (s.symbols.symbol i).file := by
  intro s q
  have hsite : s.symbols.siteAt? 0 19 = some q.site := by decide +kernel
  have hfound : s.symbols.lookupPath q ⟨false, [⟨"A", []⟩, ⟨"x", []⟩]⟩ = [4] := by decide +kernel
  have hseen : s.symbols.isSeenFrom q.site.file (s.symbols.symbol 4).file = false := by
    decide +kernel
  refine ⟨hsite, 4, hfound ▸ List.mem_singleton_self 4, by decide +kernel, fun h => ?_⟩
  exact Bool.false_ne_true (hseen.symm.trans (isSeenFrom_iff.mpr h))

end CppRefactor
