import Stele.Containment.Runner

/-! When a parser's output can be removed: each obstacle that leaves some of it in the artifact directory,
and that without one nothing is left. -/
namespace Stele
open Python

section Obstacles

variable (fs : FileSystem)

/-- What we may do with a directory once the pass that opens directories up is over. -/
def Access.after (found : Bool) (at' : List PyStr) (access : Access) : Access :=
  if found && fs.chmods at' then .all else access

mutual

/-- Nothing is in the way of removing it: every call on it and on what is below works, every directory is
one that we may open, those that hold something we may also enter and change, and they are not nested more
levels deep. -/
def FileNode.Removable (found : Bool) (levels : ℕ) (at' : List PyStr) : FileNode → Prop
  | .dir access entries =>
    let access := access.after fs found at'
    access.opens = true ∧ fs.opens at' = true ∧ fs.removes at' = true ∧
      (entries ≠ [] → 0 < levels ∧ access.enters = true ∧ access.changes = true) ∧
      RemovableEntries (found && access.listable && access.searchable) (levels-1) at' entries
  | _ => fs.removes at' = true

def RemovableEntries (found : Bool) (levels : ℕ) (at' : List PyStr) : List (PyStr × FileNode) → Prop
  | [] => True
  | (name,node) :: entries => node.Removable found levels (at'++[name]) ∧ RemovableEntries found levels at' entries

end

/-- Nothing is left in the artifact directory. -/
def ArtifactDir.Emptied : ArtifactDir → Prop
  | .absent => True
  | .present _ _ entries => entries = []

/-- There is nothing to remove, or nothing is in the way of it: the path of the artifact directory is no
link, its mode can be changed, and what is below it is removable. -/
def ArtifactDir.Clearable : ArtifactDir → Prop
  | .absent => True
  | .present linked _ entries => entries = [] ∨
    (linked = false ∧ fs.chmods [] = true ∧ RemovableEntries fs true fs.levels [] entries)

end Obstacles

section Removal

variable {fs : FileSystem}

/-- In a directory that we may not enter and change nothing is removed. -/
lemma remove_blocked {parent : Access} {at' : List PyStr} (levels : ℕ) (node : FileNode) (h : ¬(parent.enters = true ∧ parent.changes = true)) :
    ∃ e left, node.remove fs levels parent at' = (.error e,some left) := by
  cases node with
  | dir access entries =>
    rw [FileNode.remove]
    by_cases hopen : (parent.enters && access.opens && fs.opens at') = true
    · rw [if_pos hopen]
      rcases removeEntries fs levels access at' entries with ⟨e | _,left⟩
      · exact ⟨e,.dir access left,rfl⟩
      · have hchanges : ¬(parent.changes && fs.removes at') = true := fun hc => by
          rw [Bool.and_eq_true] at hc
          rw [Bool.and_eq_true,Bool.and_eq_true] at hopen
          exact h ⟨hopen.1.1,hc.1⟩
        simp only [if_neg hchanges]
        exact ⟨_,_,rfl⟩
    · rw [if_neg hopen]
      exact ⟨_,_,rfl⟩
  | _ =>
    have hnot : ¬(parent.enters && parent.changes && fs.removes at') = true := fun hc => by
      rw [Bool.and_eq_true,Bool.and_eq_true] at hc
      exact h hc.1
    exact ⟨_,_,if_neg hnot⟩

/-- What is no directory is unlinked. -/
lemma remove_leaf {parent : Access} {at' : List PyStr} {node : FileNode} {found : Bool} {levels : ℕ}
    (henters : parent.enters = true) (hchanges : parent.changes = true)
    (hopened : node.opened fs found at' = node)
    (hremovable : node.Removable fs found levels at' = (fs.removes at' = true))
    (hdir : ∀ access entries, node ≠ .dir access entries) :
    (node.Removable fs found levels at' ∧ (node.opened fs found at').remove fs levels parent at' = (.ok (),none)) ∨
    (¬node.Removable fs found levels at' ∧
      ∃ e left, (node.opened fs found at').remove fs levels parent at' = (.error e,some left)) := by
  rw [hopened,hremovable,FileNode.remove,henters,hchanges]
  · by_cases hremoves : fs.removes at' = true
    · exact .inl ⟨hremoves,by rw [hremoves]; rfl⟩
    · refine .inr ⟨hremoves,.osError,node,?_⟩
      rw [Bool.eq_false_iff.mpr hremoves]
      rfl
  · exact hdir

mutual

/-- An entry is removed exactly when nothing is in the way of it. -/
lemma remove_cases (node : FileNode) (parent : Access) (found : Bool) (levels : ℕ) (at' : List PyStr)
    (henters : parent.enters = true) (hchanges : parent.changes = true) :
    (node.Removable fs found levels at' ∧ (node.opened fs found at').remove fs levels parent at' = (.ok (),none)) ∨
    (¬node.Removable fs found levels at' ∧
      ∃ e left, (node.opened fs found at').remove fs levels parent at' = (.error e,some left)) := by
  cases node with
  | dir access entries =>
    have ih := removeEntries_cases entries (access.after fs found at')
      (found && (access.after fs found at').listable && (access.after fs found at').searchable) levels at'
    have hopened : (FileNode.dir access entries).opened fs found at' = .dir (access.after fs found at')
        (openedEntries fs (found && (access.after fs found at').listable && (access.after fs found at').searchable)
          at' entries) := by
      rw [FileNode.opened]
      rfl
    rw [hopened,FileNode.Removable,FileNode.remove]
    generalize access.after fs found at' = access at ih
    by_cases hopens : access.opens = true ∧ fs.opens at' = true
    · rw [henters,hchanges,hopens.1,hopens.2]
      rcases ih with ⟨hok,hrun⟩ | ⟨hnot,e,left,-,hrun⟩
      · rw [hrun]
        by_cases hremoves : fs.removes at' = true
        · exact .inl ⟨⟨rfl,rfl,hremoves,hok⟩,by rw [hremoves]; rfl⟩
        · refine .inr ⟨fun h => hremoves h.2.2.1,.osError,.dir access [],?_⟩
          rw [Bool.eq_false_iff.mpr hremoves]
          rfl
      · rw [hrun]
        exact .inr ⟨fun h => hnot h.2.2.2,e,_,rfl⟩
    · refine .inr ⟨fun h => hopens ⟨h.1,h.2.1⟩,.osError,_,if_neg ?_⟩
      rw [henters,Bool.true_and,Bool.and_eq_true]
      exact hopens
  | file content readable => exact remove_leaf henters hchanges rfl rfl nofun
  | link toDir => exact remove_leaf henters hchanges rfl rfl nofun
  | special => exact remove_leaf henters hchanges rfl rfl nofun

lemma removeEntries_cases (entries : List (PyStr × FileNode)) (access : Access) (found : Bool) (levels : ℕ)
    (at' : List PyStr) :
    (((entries ≠ [] → 0 < levels ∧ access.enters = true ∧ access.changes = true) ∧
        RemovableEntries fs found (levels-1) at' entries) ∧
      removeEntries fs levels access at' (openedEntries fs found at' entries) = (.ok (),[])) ∨
    (¬((entries ≠ [] → 0 < levels ∧ access.enters = true ∧ access.changes = true) ∧
        RemovableEntries fs found (levels-1) at' entries) ∧
      ∃ e left, left ≠ [] ∧ removeEntries fs levels access at' (openedEntries fs found at' entries) = (.error e,left)) := by
  cases entries with
  | nil => exact .inl ⟨⟨fun h => absurd rfl h,trivial⟩,rfl⟩
  | cons p entries =>
    obtain ⟨name,node⟩ := p
    have hne : (name,node) :: entries ≠ [] := List.cons_ne_nil _ _
    cases levels with
    | zero => exact .inr ⟨fun h => absurd (h.1 hne).1 (lt_irrefl 0),_,_,List.cons_ne_nil _ _,rfl⟩
    | succ levels =>
      rw [openedEntries,removeEntries]
      by_cases haccess : access.enters = true ∧ access.changes = true
      · rcases remove_cases node access found levels (at'++[name]) haccess.1 haccess.2 with
          ⟨hnode,hrun⟩ | ⟨hnode,e,left,hrun⟩
        · rw [hrun]
          rcases removeEntries_cases entries access found (levels+1) at' with ⟨hok,hrest⟩ | ⟨hnot,e,left,hleft,hrest⟩
          · exact .inl ⟨⟨fun _ => ⟨levels.succ_pos,haccess⟩,hnode,hok.2⟩,hrest⟩
          · exact .inr ⟨fun h => hnot ⟨fun _ => ⟨levels.succ_pos,haccess⟩,h.2.2⟩,e,left,hleft,hrest⟩
        · rw [hrun]
          exact .inr ⟨fun h => hnode h.2.1,e,_,List.cons_ne_nil _ _,rfl⟩
      · obtain ⟨e,left,hrun⟩ := remove_blocked levels (node.opened fs found (at'++[name])) haccess
        rw [hrun]
        exact .inr ⟨fun h => haccess (h.1 hne).2,e,_,List.cons_ne_nil _ _,rfl⟩

end

/-- A run's output is removed exactly when it is clearable, whether the directory goes too or not. -/
theorem removeOutput_emptied (fs : FileSystem) (left : ArtifactDir) (created : Bool) :
    (removeOutput fs left created).2.Emptied ↔ left.Clearable fs := by
  cases left with
  | absent => cases created <;> exact Iff.rfl
  | present linked access entries =>
    cases linked with
    | true =>
      refine ⟨Or.inl,fun h => ?_⟩
      rcases h with h | ⟨h,-⟩
      · exact h
      · cases h
    | false =>
      rw [removeOutput,discardArtifactDirContents]
      by_cases hchmods : fs.chmods [] = true
      · rw [if_pos hchmods]
        rcases removeEntries_cases entries .all true (fs.levels+1) [] with ⟨hok,hrun⟩ | ⟨hnot,e,left,hleft,hrun⟩
        · rw [hrun]
          refine iff_of_true ?_ (.inr ⟨rfl,hchmods,hok.2⟩)
          cases created with
          | false => rfl
          | true =>
            dsimp only
            rw [if_pos rfl,removeDir]
            split_ifs
            · trivial
            · rfl
        · rw [hrun]
          refine iff_of_false (fun h => hleft ?_) fun h => hnot ⟨fun _ => ⟨fs.levels.succ_pos,rfl,rfl⟩,?_⟩
          · cases e <;> exact h
          · rcases h with rfl | ⟨-,-,h⟩
            · trivial
            · exact h
      · rw [if_neg hchmods]
        refine ⟨Or.inl,fun h => ?_⟩
        rcases h with h | ⟨-,h,-⟩
        · exact h
        · exact absurd h hchmods

end Removal

end Stele
