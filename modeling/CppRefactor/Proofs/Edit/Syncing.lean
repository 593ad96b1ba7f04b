import CppRefactor.Proofs.Edit.Revisions

/-!
Copying a host into a workspace. A document is taken for unchanged if the workspace has its
revision, but each side counts revisions of its own: what is copied is exact just if no revision
stands for two texts of a document. A workspace that is only written by copying keeps to that.
-/

namespace CppRefactor

namespace Host

/-- What a workspace has of a document after it was copied there, from what it had before. -/
def synced : Option Document → Document → Document
  | none, d => d
  | some e, d => if e.revision = d.revision then e else d

theorem synced_eq_iff {found : Option Document} {d : Document} :
    synced found d = d ↔ ∀ e, found = some e → d.revision = e.revision → d.text = e.text := by
  cases found with
  | none => exact iff_of_true rfl nofun
  | some e =>
    obtain ⟨s, r⟩ := e
    obtain ⟨t, r'⟩ := d
    by_cases hr : r = r'
    · subst hr
      simp [synced, eq_comm]
    · simp [synced, hr, Ne.symm hr]

theorem find?_copyInto (w : Workspace) (p q : Path) (d : Document) :
    (copyInto w p d).find? q =
      if q.normalize = p.normalize then some (synced (w.find? p) d) else w.find? q := by
  have hset : (w.setAt p d).find? q = if q.normalize = p.normalize then some d else w.find? q :=
    PathMap.find?_insert ..
  rw [copyInto]
  cases hw : w.find? p with
  | none => exact hset
  | some e =>
    by_cases hr : e.revision = d.revision
    · simp only [Option.any_some, hr, beq_self_eq_true, if_true, synced]
      split
      · rename_i hq
        rw [← hw, Workspace.find?, hq, Workspace.find?]
      · rfl
    · simpa [hr, synced] using hset

theorem find?_foldl_copyInto {entries : List (Path × OpenDocument)}
    (hn : ∀ e ∈ entries, e.1.normalize = e.1) (ho : entries.Pairwise fun a b => a.1.before b.1)
    (w : Workspace) (q : Path) :
    (entries.foldl (fun w (path, d) => copyInto w path d.document) w).find? q =
      (entries.lookup q.normalize).elim (w.find? q) fun d =>
        some (synced (w.find? q) d.document) := by
  induction entries generalizing w with
  | nil => rfl
  | cons entry rest ih =>
    obtain ⟨p, d⟩ := entry
    obtain ⟨hp, ho⟩ := List.pairwise_cons.mp ho
    have hnp : p.normalize = p := hn _ List.mem_cons_self
    rw [List.foldl_cons, ih (fun e he => hn e (List.mem_cons_of_mem _ he)) ho, find?_copyInto,
      PathMap.lookup_cons, hnp]
    by_cases hq : q.normalize = p
    · -- No other entry has this path, as it comes before all the others.
      have hnone : rest.lookup q.normalize = none := by
        refine List.lookup_eq_none_iff.mpr fun e he => ?_
        have hb := hp e he
        rw [hq, bne_iff_ne]
        rintro rfl
        simp [Path.before_irrefl] at hb
      rw [hnone, if_pos hq, if_pos hq, Workspace.find?, Workspace.find?, hnp, hq]
      rfl
    · rw [if_neg hq, if_neg hq]

theorem Reachable.find?_copyAllInto [TextHash] (hh : Reachable h) (w : Workspace) (q : Path) :
    (h.copyAllInto w).find? q =
      (h.find? q).elim (w.find? q) fun d => some (synced (w.find? q) d.document) := by
  refine find?_foldl_copyInto (fun e he => ?_) hh.ordered w q
  obtain ⟨d, hd⟩ := PathMap.mem_paths.mp (List.mem_map_of_mem (f := Prod.fst) he)
  exact hh.normalized _ d hd

/-- A document that both have at one revision has one text. -/
def Agrees (h : Host) (w : Workspace) : Prop :=
  ∀ q d e, h.find? q = some d → w.find? q = some e → d.revision = e.revision → d.text = e.text

/-- The workspace gets every document of the host as it is just if revisions agree beforehand. -/
theorem Reachable.copyAllInto_exact_iff [TextHash] (hh : Reachable h) (w : Workspace) :
    (∀ q d, h.find? q = some d → (h.copyAllInto w).find? q = some d.document) ↔ h.Agrees w := by
  have hsynced {q d} (hd : h.find? q = some d) :
      (h.copyAllInto w).find? q = some (synced (w.find? q) d.document) := by
    rw [hh.find?_copyAllInto, hd]
    rfl
  constructor
  · intro hexact q d e hd he hr
    have hs := Option.some.inj ((hsynced hd).symm.trans (hexact q d hd))
    exact synced_eq_iff.mp hs e he hr
  · intro ha q d hd
    rw [hsynced hd, synced_eq_iff.mpr fun e he hr => ha q d e hd he hr]

/-- If both sides are edited, one revision can come to stand for two texts. The workspace then keeps
its own. -/
theorem sync_keeps_other_text :
    let path := Path.ofString "/a.cpp"
    let w := ((Workspace.ofSearchPaths none []).set path "int a;\n").2
    let h := (Host.start (some w)).after [.openText path "int b;\n"]
    let w' := (w.set path "int c;\n").2
    (h.find? path).map (·.document) = some ⟨"int b;\n", 2⟩ ∧
      (h.copyAllInto w').find? path = some ⟨"int c;\n", 2⟩ := by
  decide +kernel

/-- A host made from a workspace, after calls; the workspace is written by copying only. -/
inductive Joined [TextHash] : Host → Workspace → Prop
  | start (hw : w.Reachable) : Joined (.ofWorkspace w) w
  | call (hj : Joined h w) (c : Call) : Joined (c.action.perform h).2 w
  | sync (hj : Joined h w) : Joined h (h.copyAllInto w)
  | remove (hj : Joined h w) (path : Path) : Joined h (w.remove path).2
  | rescan (hj : Joined h w) (disk : Option Disk) : Joined h (w.rescan disk)

theorem Joined.reachable [TextHash] (hj : Joined h w) : h.Reachable := by
  induction hj with
  | start hw => exact .ofWorkspace hw
  | call _ c ih => exact ih.call c
  | sync _ ih => exact ih
  | remove _ _ ih => exact ih
  | rescan _ _ ih => exact ih

theorem Reachable.bounded [TextHash] (hh : Reachable h) : h.Bounded := by
  induction hh with
  | empty => exact start_bounded none
  | ofWorkspace _ => exact start_bounded (some _)
  | call _ c ih => exact (c.action_advances _).bounded ih

/-- The workspace has no revision that the host has yet to give. -/
structure Follows (h : Host) (w : Workspace) : Prop where
  le : ∀ q e, w.find? q = some e → e.revision ≤ h.lastRevision
  agrees : h.Agrees w

namespace Follows

theorem ofWorkspace (w : Workspace) : Follows (.ofWorkspace w) w := by
  have hfind (q : Path) : (Host.ofWorkspace w).find? q =
      (w.find? q).map fun d => ⟨d.text, d.revision, 0, none⟩ :=
    PathMap.lookup_map w.documents.entries
      (fun d => (⟨d.text, d.revision, 0, none⟩ : OpenDocument)) q.normalize
  constructor
  · intro q e he
    refine start_bounded (some w) q.normalize ⟨e.text, e.revision, 0, none⟩ ?_
    exact (hfind q).trans (by rw [he]; rfl)
  · intro q d e hd he _
    rw [hfind, he] at hd
    cases hd
    rfl

theorem advances (hf : Follows s w) (ha : s.Advances t) : Follows t w := by
  refine ⟨fun q e he => Nat.le_trans (hf.le q e he) ha.last, ?_⟩
  intro q d e hd he hr
  rcases ha.documents _ d hd with ⟨c, hc, hcd⟩ | ⟨hl, -⟩
  · have hrc : c.revision = d.revision := congrArg Document.revision hcd
    have htc : c.text = d.text := congrArg Document.text hcd
    exact htc ▸ hf.agrees q c e hc he (hrc.trans hr)
  · have hle := hf.le q e he
    omega

theorem sync [TextHash] (hf : Follows h w) (hh : h.Reachable) : Follows h (h.copyAllInto w) := by
  have hexact := (hh.copyAllInto_exact_iff w).mpr hf.agrees
  constructor
  · intro q e he
    cases hd : h.find? q with
    | none =>
      rw [hh.find?_copyAllInto, hd] at he
      exact hf.le q e he
    | some d =>
      cases (hexact q d hd).symm.trans he
      exact hh.bounded _ d hd
  · intro q d e hd he _
    cases (hexact q d hd).symm.trans he
    rfl

theorem of_find? (hf : Follows h w) (hw : ∀ q e, v.find? q = some e → w.find? q = some e) :
    Follows h v :=
  ⟨fun q e he => hf.le q e (hw q e he), fun q d e hd he => hf.agrees q d e hd (hw q e he)⟩

end Follows

theorem Joined.follows [TextHash] (hj : Joined h w) : Follows h w := by
  induction hj with
  | start _ => exact .ofWorkspace _
  | call _ c ih => exact ih.advances (c.action_advances _)
  | sync hj ih => exact ih.sync hj.reachable
  | remove _ path ih =>
    refine ih.of_find? fun q e he => ?_
    have he := (PathMap.find?_erase ..).symm.trans he
    split at he
    · cases he
    · exact he
  | rescan _ disk ih => exact ih.of_find? fun _ _ he => he

/-- As long as nothing but the host writes the workspace, copying gives it every document of the
host as it is, and leaves it the others as they were. -/
theorem Joined.copyAllInto_exact [TextHash] (hj : Joined h w) (q : Path) :
    (∀ d, h.find? q = some d → (h.copyAllInto w).find? q = some d.document) ∧
      (h.find? q = none → (h.copyAllInto w).find? q = w.find? q) := by
  refine ⟨(hj.reachable.copyAllInto_exact_iff w).mpr hj.follows.agrees q, fun hd => ?_⟩
  rw [hj.reachable.find?_copyAllInto, hd]
  rfl

end Host

end CppRefactor
