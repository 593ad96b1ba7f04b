import CppRefactor.Proofs.Edit.Reachable

/-!
Undoing what was done and doing it again. Each changeset in a history leads from the contents of all
documents before it to those after it, so the way back and forth can be gone step by step.
-/

namespace CppRefactor

namespace Action

theorem perform_mapM_cons {f : α → Action β} (hx : (f x).perform h = (.ok y, h₁))
    (hxs : Action.perform (xs.mapM f) h₁ = (.ok ys, h₂)) :
    Action.perform ((x :: xs).mapM f) h = (.ok (y :: ys), h₂) := by
  rw [List.mapM_cons, perform_bind_ok hx, perform_bind_ok hxs]
  rfl

theorem perform_mapM_concat {f : α → Action β} (hxs : Action.perform (xs.mapM f) h = (.ok ys, h₁))
    (hx : (f x).perform h₁ = (.ok y, h₂)) :
    Action.perform ((xs ++ [x]).mapM f) h = (.ok (ys ++ [y]), h₂) := by
  have hone : Action.perform ([x].mapM f) h₁ = (.ok [y], h₂) := perform_mapM_cons hx rfl
  rw [List.mapM_append, perform_bind_ok hxs, perform_bind_ok hone]
  rfl

end Action

/-- The contents of all documents by path. -/
abbrev Contents := Path → Option Content

/-- A changeset of a history leads that way from the contents of all documents to others. -/
structure Direction.Links (way : Direction) (steps : List Step) (c c' : Contents) : Prop where
  distinct : (steps.map (·.path)).Nodup
  source : ∀ s ∈ steps, c s.path = some (way.source s).content
  target : ∀ s ∈ steps, c' s.path = some (way.target s).content
  others : ∀ p ∉ steps.map (·.path), c' p = c p

theorem paths_eq_of_plain {taken steps : List Step}
    (h : taken.map Step.plain = steps.map Step.plain) :
    taken.map (·.path) = steps.map (·.path) := by
  have hp := congrArg (List.map fun x => Path.ofString x.1) h
  rwa [List.map_map, List.map_map] at hp

def Direction.opposite : Direction → Direction
  | .back => .forth
  | .forth => .back

namespace Direction

theorem Links.reverse (h : Links way steps c c') : Links way.opposite steps c' c := by
  have others : ∀ p ∉ steps.map (·.path), c p = c' p := fun p hp => (h.others p hp).symm
  cases way with
  | back => exact ⟨h.distinct, h.target, h.source, others⟩
  | forth => exact ⟨h.distinct, h.target, h.source, others⟩

theorem Links.of_plain (h : Links way steps c c')
    (hplain : taken.map Step.plain = steps.map Step.plain) : Links way taken c c' := by
  have hpaths := paths_eq_of_plain hplain
  have hsame : ∀ t ∈ taken, ∃ s ∈ steps, s.path = t.path ∧
      (way.source s).content = (way.source t).content ∧
      (way.target s).content = (way.target t).content := by
    intro t ht
    have hm : t.plain ∈ steps.map Step.plain := hplain ▸ List.mem_map_of_mem ht
    obtain ⟨s, hs, he⟩ := List.mem_map.mp hm
    simp only [Step.plain, Prod.mk.injEq] at he
    obtain ⟨hname, hbefore, hafter⟩ := he
    refine ⟨s, hs, congrArg Path.ofString hname, ?_⟩
    cases way with
    | back => exact ⟨hafter, hbefore⟩
    | forth => exact ⟨hbefore, hafter⟩
  refine ⟨hpaths ▸ h.distinct, ?_, ?_, fun p hp => h.others p (hpaths ▸ hp)⟩
  · intro t ht
    obtain ⟨s, hs, hpath, hsource, -⟩ := hsame t ht
    rw [← hpath, ← hsource, h.source s hs]
  · intro t ht
    obtain ⟨s, hs, hpath, -, htarget⟩ := hsame t ht
    rw [← hpath, ← htarget, h.target s hs]

theorem Links.checks (h : Links way steps s.content c') :
    Action.perform (steps.forM (Action.check way)) s = (.ok (), s) := by
  apply Action.forM_check_ok
  intro step hs
  have hc := h.source step hs
  obtain ⟨d, hd, hcontent⟩ := Option.map_eq_some_iff.mp hc
  exact ⟨d, hd, congrArg Content.text hcontent⟩

theorem Links.content_putAll {s : Host} (h : Links way steps s.content c') :
    (s.putAll way.target steps).content = c' := by
  funext p
  by_cases hp : p ∈ steps.map (·.path)
  · obtain ⟨step, hs, rfl⟩ := List.mem_map.mp hp
    rw [Host.content_putAll_of_mem h.distinct hs, h.target step hs]
  · rw [Host.content_putAll_of_notMem hp, h.others p hp]

end Direction

theorem latest?_head (hp : p ∈ steps.map (·.path)) :
    latest? (steps :: rest) p = some (0, steps) := by
  have ha : steps.any (·.path == p) = true := by
    obtain ⟨s, hs, he⟩ := List.mem_map.mp hp
    exact List.any_eq_true.mpr ⟨s, hs, beq_iff_eq.mpr he⟩
  simp [latest?, List.findIdx?_cons, ha]

/-- The changeset at the front of a history is gone through, whichever of its documents is asked
for, and moves to the front of the other history. -/
theorem travel_links {way : Direction} (hl : way.Links steps s.content c')
    (hh : way.history s = steps :: rest) (hp : p ∈ steps.map (·.path)) (hn : p.normalize = p) :
    ∃ s', (Action.travel way p).perform s = (.ok true, s') ∧ s'.content = c' ∧
      way.history s' = rest ∧ way.opposite.history s' = steps :: way.opposite.history s := by
  have hlatest : latest? (way.history s) p.normalize = some (0, steps) := by
    rw [hh, hn]
    exact latest?_head hp
  obtain ⟨hu, hr⟩ := s.putAll_histories way.target steps
  refine ⟨_, Action.travel_ok hlatest hl.checks, ?_, ?_, ?_⟩
  · rw [← hl.content_putAll]
    funext q
    rw [Host.content, Host.content, Action.move_documents]
  · cases way with
    | back =>
      change ((s.putAll _ steps).undoable.eraseIdx 0) = rest
      rw [hu, show s.undoable = steps :: rest from hh]
      rfl
    | forth =>
      change ((s.putAll _ steps).redoable.eraseIdx 0) = rest
      rw [hr, show s.redoable = steps :: rest from hh]
      rfl
  · cases way with
    | back => exact congrArg (steps :: ·) hr
    | forth => exact congrArg (steps :: ·) hu

/-- Changesets, each with one of its paths, that lead from contents to others one after the
other. -/
inductive Chain : List (List Step × Path) → Contents → Contents → Prop
  | nil : Chain [] c c
  | cons (hl : Direction.forth.Links steps c c₁) (hp : p ∈ steps.map (·.path))
      (hn : p.normalize = p) (hrest : Chain moves c₁ c₂) : Chain ((steps, p) :: moves) c c₂

theorem Chain.undo (hc : Chain moves c c') (hh : s.content = c')
    (hu : s.undoable = (moves.map (·.1)).reverse ++ rest) :
    ∃ s', Action.perform ((moves.map (·.2)).reverse.mapM Action.undo) s =
        (.ok (List.replicate moves.length true), s') ∧
      s'.content = c ∧ s'.undoable = rest ∧ s'.redoable = moves.map (·.1) ++ s.redoable := by
  induction hc generalizing rest with
  | nil => exact ⟨s, rfl, hh, hu, rfl⟩
  | @cons steps c c₁ p moves c₂ hl hp hn hrest ih =>
    -- Undoing goes the other way: the changesets behind this one come first.
    rw [List.map_cons, List.reverse_cons, List.append_assoc] at hu
    obtain ⟨s₁, hrun, hc₁, hu₁, hr₁⟩ := ih hh hu
    have hback : Direction.back.Links steps s₁.content c := hc₁ ▸ hl.reverse
    obtain ⟨s₂, htravel, hc₂, hu₂, hr₂⟩ := travel_links hback hu₁ hp hn
    refine ⟨s₂, ?_, hc₂, hu₂, ?_⟩
    · rw [List.map_cons, List.reverse_cons, List.length_cons, List.replicate_succ']
      exact Action.perform_mapM_concat hrun htravel
    · rw [List.map_cons, List.cons_append, ← hr₁]
      exact hr₂

theorem Chain.redo (hc : Chain moves c c') (hh : s.content = c)
    (hr : s.redoable = moves.map (·.1) ++ rest) :
    ∃ s', Action.perform ((moves.map (·.2)).mapM Action.redo) s =
        (.ok (List.replicate moves.length true), s') ∧
      s'.content = c' ∧ s'.undoable = (moves.map (·.1)).reverse ++ s.undoable := by
  induction hc generalizing s with
  | nil => exact ⟨s, rfl, hh, rfl⟩
  | @cons steps c c₁ p moves c₂ hl hp hn hrest ih =>
    have hforth : Direction.forth.Links steps s.content c₁ := hh ▸ hl
    obtain ⟨s₁, htravel, hc₁, hr₁, hu₁⟩ := travel_links hforth hr hp hn
    obtain ⟨s₂, hrun, hc₂, hu₂⟩ := ih hc₁ hr₁
    refine ⟨s₂, Action.perform_mapM_cons htravel hrun, hc₂, ?_⟩
    have hu₁ : s₁.undoable = steps :: s.undoable := hu₁
    rw [hu₂, hu₁, List.map_cons, List.reverse_cons, List.append_assoc]
    rfl

/-- A changeset that is made leads from the contents before to those after, and is the first that
can be undone. -/
theorem apply_links [TextHash] (hn : c.files ≠ []) (h : (Action.apply c).perform s = (.ok (), s')) :
    ∃ taken, taken.map (·.path) = c.files.map (·.path) ∧
      Direction.forth.Links taken s.content s'.content ∧ s'.undoable = taken :: s.undoable := by
  obtain ⟨steps, hpaths, hfound, rfl⟩ := Action.apply_ok h
  have hne : steps ≠ [] := by
    rintro rfl
    exact hn (List.map_eq_nil_iff.mp hpaths.symm)
  have hlinks : Direction.forth.Links steps s.content (s.putAll (·.after) steps).content :=
    { distinct := hpaths ▸ c.distinct
      source := fun step hstep => congrArg (Option.map OpenDocument.content) (hfound step hstep)
      target := fun step hstep => Host.content_putAll_of_mem (hpaths ▸ c.distinct) hstep _ s
      others := fun p hp => Host.content_putAll_of_notMem hp _ s }
  obtain ⟨taken, hplain, hrun⟩ := Action.record_run steps hne s
  have htaken := hlinks.of_plain hplain
  refine ⟨taken, (paths_eq_of_plain hplain).trans hpaths, ?_, by rw [hrun]⟩
  rw [hrun]
  exact htaken

theorem applyAll_chain [TextHash] {changes : List (Changeset × Path)} (hs : s.Reachable)
    (hnamed : ∀ x ∈ changes, x.2 ∈ x.1.files.map (·.path))
    (h : Action.perform ((changes.map (·.1)).forM Action.apply) s = (.ok (), t)) :
    ∃ moves, moves.map (·.2) = changes.map (·.2) ∧ Chain moves s.content t.content ∧
      t.undoable = (moves.map (·.1)).reverse ++ s.undoable := by
  induction changes generalizing s with
  | nil =>
    cases h
    exact ⟨[], rfl, .nil, rfl⟩
  | cons x changes ih =>
    obtain ⟨c, p⟩ := x
    obtain ⟨_, s₁, happly, h⟩ := Action.of_perform_bind h
    have hp : p ∈ c.files.map (·.path) := hnamed (c, p) List.mem_cons_self
    have hn : c.files ≠ [] := by
      intro he
      rw [he] at hp
      cases hp
    obtain ⟨taken, hpaths, hlinks, hu⟩ := apply_links hn happly
    have hs₁ : s₁.Reachable := by
      have hcall := hs.call (.apply c)
      rwa [show (Call.apply c).action.perform s = (.ok (), s₁) from happly] at hcall
    obtain ⟨moves, hsame, hchain, hu₁⟩ := ih hs₁ (fun x hx => hnamed x (.tail _ hx)) h
    -- A path of a changeset is normalized because a document was found under it.
    rw [← hpaths] at hp
    have hnorm : p.normalize = p := by
      obtain ⟨step, hstep, rfl⟩ := List.mem_map.mp hp
      obtain ⟨d, hd, -⟩ := Option.map_eq_some_iff.mp (hlinks.source step hstep)
      exact hs.normalized _ _ hd
    refine ⟨(taken, p) :: moves, ?_, .cons hlinks hp hnorm hchain, ?_⟩
    · rw [List.map_cons, List.map_cons, hsame]
    · rw [hu₁, hu, List.map_cons, List.reverse_cons, List.append_assoc]
      rfl

/-- Changesets that were made one after the other can all be undone, through any of their documents,
and then be made again: contents and undo history are as before the first, and then as after the
last. -/
theorem undo_redo_all [TextHash] (hs : Host.Reachable s) (changes : List (Changeset × Path))
    (hnamed : ∀ x ∈ changes, x.2 ∈ x.1.files.map (·.path))
    (happly : Action.perform ((changes.map (·.1)).forM Action.apply) s = (.ok (), t)) :
    ∃ u v,
      Action.perform ((changes.map (·.2)).reverse.mapM Action.undo) t =
        (.ok (List.replicate changes.length true), u) ∧
      u.content = s.content ∧ u.undoable = s.undoable ∧
      Action.perform ((changes.map (·.2)).mapM Action.redo) u =
        (.ok (List.replicate changes.length true), v) ∧
      v.content = t.content ∧ v.undoable = t.undoable := by
  obtain ⟨moves, hsame, hchain, hu⟩ := applyAll_chain hs hnamed happly
  have hlength : moves.length = changes.length := by
    have hl := congrArg List.length hsame
    rwa [List.length_map, List.length_map] at hl
  obtain ⟨u, hundo, hcu, huu, hru⟩ := hchain.undo rfl hu
  obtain ⟨v, hredo, hcv, huv⟩ := hchain.redo hcu hru
  rw [hsame, hlength] at hundo hredo
  exact ⟨u, v, hundo, hcu, huu, hredo, hcv, by rw [huv, huu, hu]⟩

/-- Two open documents. -/
def openPair : Host :=
  ((Call.openText (.ofString "/b") "").action.perform
    ((Call.openText (.ofString "/a") "a").action.perform .empty).2).2

/-- A change of both documents, and one of the second. -/
def pairChanges : List (Changeset × Path) :=
  [((Changeset.empty.edit "/a" ⟨"a", 1⟩ (·.insert 0 "b")).edit "/b" ⟨"", 2⟩ (·.insert 0 "c"),
      .ofString "/a"),
    (Changeset.empty.edit "/b" ⟨"c", 4⟩ (·.insert 1 "d"), .ofString "/b")]

theorem undo_redo_pair :
    ∃ t u v, Action.perform ((pairChanges.map (·.1)).forM Action.apply) openPair = (.ok (), t) ∧
      Action.perform ((pairChanges.map (·.2)).reverse.mapM Action.undo) t =
        (.ok [true, true], u) ∧
      u.content = openPair.content ∧ u.undoable = openPair.undoable ∧
      Action.perform ((pairChanges.map (·.2)).mapM Action.redo) u = (.ok [true, true], v) ∧
      v.content = t.content ∧ v.undoable = t.undoable := by
  have hs : Host.Reachable openPair := by
    unfold openPair
    exact .call (.call .empty _) _
  have hok : (Action.perform ((pairChanges.map (·.1)).forM Action.apply) openPair).1 = .ok () :=
    rfl
  have happly : Action.perform ((pairChanges.map (·.1)).forM Action.apply) openPair =
      (.ok (), (Action.perform ((pairChanges.map (·.1)).forM Action.apply) openPair).2) :=
    Prod.ext hok rfl
  obtain ⟨u, v, h⟩ := undo_redo_all hs pairChanges (by decide) happly
  exact ⟨_, u, v, happly, h⟩

end CppRefactor
