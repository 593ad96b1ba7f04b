import CppRefactor.Proofs.Symbols.Built
import CppRefactor.Proofs.Symbols.Lookup

/-!
What lookups answer. Whatever scopes, directives, using-declarations, bases and aliases a lookup
goes through, it answers symbols of the name it was asked for, of a kind that is looked for, and
none of them twice.
-/

namespace CppRefactor

/-- The using-declarations of a scope go by the last name of their paths. -/
def Scope.UsingsNamed (s : Scope) : Prop := ∀ d ∈ s.usingDeclarations, d.path.last.name = d.name

namespace SymbolTable

/-- The scopes of a table all have a property. -/
def EveryScope (p : Scope → Prop) (t : SymbolTable) : Prop := ∀ s ∈ t.scopes, p s

namespace EveryScope

variable {p : Scope → Prop} {t : SymbolTable}

theorem scope (h : EveryScope p t) (hdefault : p default) (id : ScopeId) : p (t.scope id) := by
  rw [SymbolTable.scope, Array.getD_eq_getD_getElem?]
  cases hs : t.scopes[id]? with
  | none => exact hdefault
  | some s => exact h s (Array.mem_of_getElem? hs)

theorem modifyScope (h : EveryScope p t) (id : ScopeId) {f : Scope → Scope}
    (hf : ∀ s, p s → p (f s)) : EveryScope p (t.modifyScope id f) := by
  intro s hs
  obtain ⟨i, hi⟩ := Array.mem_iff_getElem?.mp hs
  rw [SymbolTable.modifyScope, Array.getElem?_modify] at hi
  split at hi
  · obtain ⟨s', hs', rfl⟩ := Option.map_eq_some_iff.mp hi
    exact hf s' (h s' (Array.mem_of_getElem? hs'))
  · exact h s (Array.mem_of_getElem? hi)

theorem push (h : EveryScope p t) {s : Scope} (hs : p s) :
    EveryScope p (t.pushScope s) := by
  intro s' hs'
  rcases Array.mem_push.mp hs' with hs' | rfl
  · exact h s' hs'
  · exact hs

theorem addScope (h : EveryScope p t) (kind : ScopeKind) (parent : ScopeId)
    (owner : Option SymbolId) (span : Span) (hchild : ∀ s children, p s → p { s with children })
    (hs : ∀ file, p ⟨kind, some parent, owner, file, span, [], [], [], [], none⟩) :
    EveryScope p (t.addScope kind parent owner span).2 := by
  have hparent := h.modifyScope parent fun s hs =>
    hchild s (s.children ++ [t.scopes.size]) hs
  have hpushed := hparent.push (hs (t.scope parent).file)
  unfold SymbolTable.addScope
  dsimp only
  split
  · split
    · exact hpushed
    · exact hpushed
  · exact hpushed

theorem add (h : EveryScope p t) (s : Symbol)
    (hmembers : ∀ s members, p s → p { s with members }) : EveryScope p (t.add s).2 := by
  unfold SymbolTable.add
  dsimp only
  split
  · exact modifyScope (t := (t.addDetached s).2) h _ fun s hs => hmembers s _ hs
  · exact h

end EveryScope

theorem usingsNamed_invariant : TableInvariant (EveryScope Scope.UsingsNamed) where
  addFile file span h := EveryScope.push h fun d hd => by simp at hd
  addScope {_ kind} _ parent owner span h :=
    h.addScope kind parent owner span (fun _ _ hs => hs) fun file d hd => by simp at hd
  addDetached s h := h
  add s h := h.add s fun _ _ hs => hs
  declareNamespace {t} name block span h := by
    unfold SymbolTable.declareNamespace
    split
    · refine h.modifyScope block fun s hs => ?_
      split
      · exact hs
      · exact hs
    · rw [addNamespace_eq]
      exact h.add (t.newNamespace name block span) fun _ _ hs => hs
  putOutOfLine id h := h
  addUsing id d h := h.modifyScope id fun _ hs => hs
  addUsingDeclaration id path offset h := h.modifyScope id fun s hs d hd => by
    rcases List.mem_append.mp hd with hd | hd
    · exact hs d hd
    · rw [List.mem_singleton.mp hd]
  setContext id cls h := h.modifyScope id fun _ hs => hs
  setFlags id f h := h
  setKind id kind h := h
  setVisible file files h := h
  link declaration definition h := h

/-- In a table of documents every using-declaration goes by the last name of its path. -/
theorem usingsNamed_symbolsOf (files : List SourceFile) (graph : IncludeGraph) (id : ScopeId) :
    ((Snapshot.symbolsOf files graph).scope id).UsingsNamed := by
  have hempty : EveryScope Scope.UsingsNamed .empty := fun s hs => by simp [empty] at hs
  have hdefault : Scope.UsingsNamed default := fun d hd => nomatch hd
  exact (usingsNamed_invariant.symbolsOf hempty files graph).scope hdefault id

variable (t : SymbolTable)

/-- All these symbols have that name, and a kind that is looked for. -/
def AllMatch (filter : Filter) (name : String) (found : List SymbolId) : Prop :=
  ∀ id ∈ found, (t.symbol id).name = name ∧ filter.accepts (t.symbol id).kind = true

/-- What a lookup of a name answers: symbols of that name, of a kind that is looked for, and none
twice. -/
structure Answers (filter : Filter) (name : String) (found : List SymbolId) : Prop where
  nodup : found.Nodup
  allMatch : t.AllMatch filter name found

variable {t} {filter : Filter} {name : String} {found more : List SymbolId}

theorem AllMatch.nil : t.AllMatch filter name [] := fun _ h => nomatch h

theorem AllMatch.append (h : t.AllMatch filter name found) (hmore : t.AllMatch filter name more) :
    t.AllMatch filter name (found ++ more) := fun id hid =>
  (List.mem_append.mp hid).elim (h id) (hmore id)

theorem AllMatch.foldl {f : Search → α → Search}
    (hf : ∀ s a, t.AllMatch filter name s.found → t.AllMatch filter name (f s a).found)
    (as : List α) {s : Search} (h : t.AllMatch filter name s.found) :
    t.AllMatch filter name (as.foldl f s).found := by
  induction as generalizing s with
  | nil => exact h
  | cons a as ih => exact ih (hf s a h)

theorem AllMatch.distinct (h : t.AllMatch filter name found) :
    t.Answers filter name (distinct found) :=
  ⟨nodup_distinct found, fun id hid => h id (mem_distinct.mp hid)⟩

theorem Answers.nil : t.Answers filter name [] := ⟨List.nodup_nil, .nil⟩

end SymbolTable

/-- The lookups of a level answer what they are asked for. The searches that they are made from may
find a symbol twice. -/
structure Level.Right (t : SymbolTable) (l : Level) : Prop where
  unqualified (q : Query) (name : String) : t.Answers q.filter name (l.unqualified q name)
  member (q : Query) (owner : SymbolId) (name : String) :
    t.Answers q.filter name (l.member q owner name)
  path (q : Query) (path : TypePath) : t.Answers q.filter path.last.name (l.path q path)
  inNamespace (q : Query) (ns : SymbolId) (name : String) (s : Search) :
    t.AllMatch q.filter name s.found → t.AllMatch q.filter name (l.inNamespace q ns name s).found
  inClass (q : Query) (id : SymbolId) (name : String) :
    t.AllMatch q.filter name (l.inClass q id name)

theorem Level.deepest_right (t : SymbolTable) : Level.deepest.Right t where
  unqualified _ _ := .nil
  member _ _ _ := .nil
  path _ _ := .nil
  inNamespace _ _ _ _ h := h
  inClass _ _ _ := .nil

namespace SymbolTable

section levels

variable {t : SymbolTable} {below : Level} (hbelow : below.Right t)

include hbelow

theorem inDirectives_allMatch (q : Query) (id : ScopeId) (name : String) {s : Search}
    (h : t.AllMatch q.filter name s.found) :
    t.AllMatch q.filter name (t.inDirectives below q id name s).found := by
  refine AllMatch.foldl (fun s d hs => ?_) _ h
  split
  · exact hbelow.inNamespace q _ name s hs
  · exact hs

theorem pathBehind_answers (q : Query) (first : PathSegment) (rest : List PathSegment)
    {found : List SymbolId}
    (h : t.Answers (if rest.isEmpty then q.filter else .scopes) first.name found) :
    t.Answers q.filter ((first :: rest).getLastD default).name
      (t.pathBehind below q found rest) := by
  induction rest generalizing first found with
  | nil => exact h
  | cons segment rest ih =>
    unfold pathBehind
    split
    · exact .nil
    · rename_i owner _
      exact ih segment (hbelow.member { q with filter := _ } owner segment.name)

theorem pathAt_answers (q : Query) (path : TypePath) :
    t.Answers q.filter path.last.name (t.pathAt below q path) := by
  unfold pathAt TypePath.last
  split
  · exact .nil
  · rename_i first rest hsegments
    rw [hsegments]
    refine pathBehind_answers hbelow q first rest ?_
    generalize (if rest.isEmpty then q.filter else Filter.scopes) = filter
    split
    · exact hbelow.member { q with filter } global first.name
    · exact hbelow.unqualified { q with filter } first.name

variable (hnamed : ∀ id, (t.scope id).UsingsNamed)

include hnamed

theorem inScope_allMatch (ordered : Bool) (q : Query) (id : ScopeId) (name : String) :
    t.AllMatch q.filter name (t.inScope below ordered q id name) := by
  refine AllMatch.append (fun m hm => ?_) (fun m hm => ?_)
  · simpa [matchesQuery] using (List.mem_filter.mp hm).2
  · obtain ⟨d, hd, hm⟩ := List.mem_flatMap.mp hm
    obtain ⟨hd, hname⟩ := List.mem_filter.mp hd
    have hname : d.name = name := by
      simp only [Bool.and_eq_true, beq_iff_eq] at hname
      exact hname.1
    have hfound := (hbelow.path _ d.path).allMatch m hm
    rwa [hnamed id d hd, hname] at hfound

theorem inBlock_allMatch (q : Query) (name : String) {s : Search} (block : ScopeId)
    (h : t.AllMatch q.filter name s.found) :
    t.AllMatch q.filter name (t.inBlock below q name s block).found :=
  AllMatch.foldl (fun s ns hs => hbelow.inNamespace q ns name s hs) _
    (h.append (inScope_allMatch hbelow hnamed true q block name))

theorem inNamespace_allMatch (q : Query) (ns : SymbolId) (name : String) {s : Search}
    (h : t.AllMatch q.filter name s.found) :
    t.AllMatch q.filter name (t.inNamespace below q ns name s).found := by
  unfold inNamespace
  split
  · exact h
  · have hblocks := AllMatch.foldl (fun s block => inBlock_allMatch hbelow hnamed q name block)
      ((t.blocks ns).filter fun b => t.isSeenFrom q.site.file (t.scope b).file)
      (s := { s with visited := s.visited ++ [ns] }) h
    dsimp only
    split
    · exact AllMatch.foldl (fun s b hs => inDirectives_allMatch hbelow q b name hs) _ hblocks
    · exact hblocks

theorem inClass_allMatch (q : Query) (id : SymbolId) (name : String) :
    t.AllMatch q.filter name (t.inClass below q id name) := by
  unfold inClass
  split
  · exact .nil
  · split
    · exact .nil
    · split
      · dsimp only
        generalize hfound : List.findSome? _ _ = found
        cases found with
        | none => exact .nil
        | some found =>
          obtain ⟨base, -, hbase⟩ := List.exists_of_findSome?_eq_some hfound
          obtain ⟨path, -, hbase⟩ := Option.bind_eq_some_iff.mp hbase
          obtain ⟨cls, -, hbase⟩ := Option.bind_eq_some_iff.mp hbase
          obtain ⟨-, -, hbase⟩ := Option.bind_eq_some_iff.mp hbase
          obtain rfl := Option.some.inj hbase
          exact hbelow.inClass q cls name
      · exact inScope_allMatch hbelow hnamed false q _ name

theorem memberAt_answers (q : Query) (owner : SymbolId) (name : String) :
    t.Answers q.filter name (t.memberAt below q owner name) := by
  unfold memberAt
  split
  · exact .nil
  · dsimp only
    split
    · exact (inNamespace_allMatch hbelow hnamed q _ name .nil).distinct
    · split
      · exact (inClass_allMatch hbelow hnamed q _ name).distinct
      · split
        · split
          · exact (inScope_allMatch hbelow hnamed false q _ name).distinct
          · exact .nil
        · exact .nil

theorem inChainScope_allMatch (q : Query) (name : String) (passed : List SymbolId) (id : ScopeId) :
    t.AllMatch q.filter name (t.inChainScope below q name passed id) := by
  unfold inChainScope
  dsimp only
  split
  case h_1 | h_2 =>
    split
    · split
      · exact .nil
      · exact inNamespace_allMatch hbelow hnamed q _ name .nil
    · exact .nil
  case h_3 =>
    split
    · exact inClass_allMatch hbelow hnamed q _ name
    · exact .nil
  case h_4 => exact inScope_allMatch hbelow hnamed false q id name
  case h_5 | h_6 =>
    split
    · exact inDirectives_allMatch hbelow q id name .nil
    · exact inScope_allMatch hbelow hnamed true q id name

theorem alongChain_answers (q : Query) (name : String) (passed : List SymbolId)
    (scopes : List ScopeId) :
    t.Answers q.filter name (t.alongChain below q name passed scopes) := by
  induction scopes generalizing passed with
  | nil => exact .nil
  | cons id rest ih =>
    unfold alongChain
    split
    · exact ih _
    · exact (inChainScope_allMatch hbelow hnamed q name passed id).distinct

theorem levelAbove_right : (t.levelAbove below).Right t where
  unqualified q name := alongChain_answers hbelow hnamed q name [] _
  member q owner name := memberAt_answers hbelow hnamed q owner name
  path q path := pathAt_answers hbelow q path
  inNamespace q ns name _ h := inNamespace_allMatch hbelow hnamed q ns name h
  inClass q id name := inClass_allMatch hbelow hnamed q id name

end levels

theorem level_right {t : SymbolTable} (hnamed : ∀ id, (t.scope id).UsingsNamed) (n : Nat) :
    (t.level n).Right t := by
  induction n with
  | zero => exact Level.deepest_right t
  | succ n ih => exact levelAbove_right ih hnamed

end SymbolTable

/-- In the symbols of any documents a lookup of a name answers only symbols of that name and of a
kind that is looked for, none of them twice; so does a lookup of a path, by the last name of the
path, and a lookup in a class, an enumeration or a namespace. -/
theorem lookups_answer (searchPaths : List Path) (headers : List Header)
    (documents : PathMap Document) (q : Query) :
    let t := (Snapshot.ofDocuments searchPaths headers documents).symbols
    (∀ name, t.Answers q.filter name (t.lookup q name)) ∧
      (∀ path, t.Answers q.filter path.last.name (t.lookupPath q path)) ∧
      ∀ owner name, t.Answers q.filter name (t.lookupMember q owner name) := by
  intro t
  have hright : (t.level SymbolTable.lookupDepth).Right t :=
    SymbolTable.level_right (SymbolTable.usingsNamed_symbolsOf _ _) _
  exact ⟨hright.unqualified q, hright.path q, hright.member q⟩

end CppRefactor
