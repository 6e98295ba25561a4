import Mathlib.Logic.Relation
import Vigil.Process.Table

/-!
# Who belongs to a process tree

A process `Belongs` to a tree if it is the root, is below it by any number of parent links, or shares the
group. The table may be any list of rows: links may lead round in circles or nowhere, and a process may
stand in it twice. `treeMembers_eq_filter`: the search finds the rows of just these processes. It does not go
on below the members of the group, though; `escapes_iff` tells which of their children are left out.
-/

namespace Vigil.ProcessRow

variable {rows : List ProcessRow} {r c : ProcessRow} {root pid parent pgid : Int}
  {visited stack : List Int}

-- ---------------------------------------------------------------------------
-- Belonging
-- ---------------------------------------------------------------------------

def Child (rows : List ProcessRow) (parent pid : Int) : Prop := ∃ r ∈ rows, r.parent = parent ∧ r.pid = pid

def Below (rows : List ProcessRow) : Int → Int → Prop := Relation.ReflTransGen (Child rows)

def Grouped (rows : List ProcessRow) (pgid pid : Int) : Prop := ∃ r ∈ rows, r.group = pgid ∧ r.pid = pid

def Belongs (rows : List ProcessRow) (root pgid pid : Int) : Prop :=
  Below rows root pid ∨ Grouped rows pgid pid

theorem Below.child (h : Below rows root parent) (hc : Child rows parent pid) : Below rows root pid :=
  h.tail hc

theorem mem_children : pid ∈ children rows parent ↔ Child rows parent pid := by
  simp [children, Child, and_assoc]

theorem mem_inGroup : pid ∈ inGroup rows pgid ↔ Grouped rows pgid pid := by
  simp [inGroup, Grouped, and_assoc]

-- ---------------------------------------------------------------------------
-- The search
-- ---------------------------------------------------------------------------

/-- What the search keeps: it has come to nothing that is not below the root, the root is not forgotten, and
the children of all that was visited are visited or on the stack. -/
structure Searching (rows : List ProcessRow) (root : Int) (visited stack : List Int) : Prop where
  sound : ∀ pid ∈ visited ++ stack, Below rows root pid
  begun : root ∈ visited ++ stack
  closed : ∀ parent ∈ visited, ∀ pid, Child rows parent pid → pid ∈ visited ++ stack

theorem searching_start (rows : List ProcessRow) (root : Int) : Searching rows root [] [root] where
  sound := by simp [Below, Relation.ReflTransGen.refl]
  begun := by simp
  closed := by simp

theorem Searching.skip (h : Searching rows root visited (pid :: stack)) (hpid : pid ∈ visited) :
    Searching rows root visited stack := by
  have hkept (q : Int) : q ∈ visited ++ pid :: stack ↔ q ∈ visited ++ stack := by grind
  refine ⟨fun q hq => h.sound q ((hkept q).mpr hq), (hkept root).mp h.begun, ?_⟩
  intro parent hparent q hq
  exact (hkept q).mp (h.closed parent hparent q hq)

theorem Searching.expand (h : Searching rows root visited (pid :: stack)) :
    Searching rows root (pid :: visited) (children rows pid ++ stack) := by
  have hkept (q : Int) : q ∈ pid :: visited ++ (children rows pid ++ stack) ↔
      q ∈ visited ++ pid :: stack ∨ Child rows pid q := by
    rw [← mem_children]
    grind
  have hpid : Below rows root pid := h.sound pid (by simp)
  refine ⟨?_, (hkept root).mpr (.inl h.begun), ?_⟩
  · intro q hq
    rcases (hkept q).mp hq with hq | hq
    · exact h.sound q hq
    · exact hpid.child hq
  · intro parent hparent q hq
    rcases List.mem_cons.mp hparent with rfl | hparent
    · exact (hkept q).mpr (.inr hq)
    · exact (hkept q).mpr (.inl (h.closed parent hparent q hq))

/-- At the end, what was visited is closed and holds the root, so it is all that is below the root. -/
theorem Searching.mem_iff (h : Searching rows root visited []) : pid ∈ visited ↔ Below rows root pid := by
  have hend : visited ++ [] = visited := List.append_nil visited
  constructor
  · intro hpid
    exact h.sound pid (hend.symm ▸ hpid)
  · intro hbelow
    induction hbelow with
    | refl => exact hend ▸ h.begun
    | @tail parent pid _ hchild ih => exact hend ▸ h.closed parent ih pid hchild

theorem mem_visit (h : Searching rows root visited stack) :
    pid ∈ visit rows visited stack ↔ Below rows root pid := by
  induction visited, stack using visit.induct rows with
  | case1 visited =>
    rw [visit]
    exact h.mem_iff
  | case2 visited next stack hnext ih =>
    rw [visit, if_pos hnext]
    exact ih (h.skip hnext)
  | case3 visited next stack hnext ih =>
    rw [visit, if_neg hnext]
    exact ih h.expand

theorem mem_descendants : pid ∈ descendants rows root ↔ Below rows root pid :=
  mem_visit (searching_start rows root)

theorem belongs_iff :
    Belongs rows root pgid pid ↔ pid ∈ descendants rows root ∨ pid ∈ inGroup rows pgid := by
  rw [Belongs, mem_descendants, mem_inGroup]

instance (rows : List ProcessRow) (root pgid pid : Int) : Decidable (Belongs rows root pgid pid) :=
  decidable_of_iff' _ belongs_iff

theorem mem_treeMembers : r ∈ treeMembers rows root pgid ↔ r ∈ rows ∧ Belongs rows root pgid r.pid := by
  simp [treeMembers, belongs_iff]

-- ---------------------------------------------------------------------------
-- The rows of a tree
-- ---------------------------------------------------------------------------

theorem Child.of_perm {other : List ProcessRow} (h : rows.Perm other) (hc : Child rows parent pid) :
    Child other parent pid := by
  obtain ⟨r, hr, hlink⟩ := hc
  exact ⟨r, h.subset hr, hlink⟩

theorem Belongs.of_perm {other : List ProcessRow} (h : rows.Perm other) (hb : Belongs rows root pgid pid) :
    Belongs other root pgid pid := by
  rcases hb with hbelow | ⟨r, hr, hgroup⟩
  · exact .inl (Relation.ReflTransGen.mono (fun _ _ => Child.of_perm h) root pid hbelow)
  · exact .inr ⟨r, h.subset hr, hgroup⟩

/-- The search ends for every table, and finds the rows of the processes that belong to the tree: each of them,
in the order of the table and as often as it stands there, and no other. So a table with the rows in another
order has the same members. -/
theorem treeMembers_eq_filter (rows : List ProcessRow) (root pgid : Int) :
    treeMembers rows root pgid = rows.filter (fun r => Belongs rows root pgid r.pid) ∧
      ∀ other, rows.Perm other → (treeMembers rows root pgid).Perm (treeMembers other root pgid) := by
  have hfilter (table : List ProcessRow) :
      treeMembers table root pgid = table.filter (fun r => Belongs table root pgid r.pid) := by
    refine List.filter_congr fun r _ => ?_
    simp [belongs_iff]
  refine ⟨hfilter rows, fun other hperm => ?_⟩
  have hsame : other.filter (fun r => Belongs rows root pgid r.pid) =
      other.filter (fun r => Belongs other root pgid r.pid) := by
    refine List.filter_congr fun r _ => decide_eq_decide.mpr ?_
    exact ⟨Belongs.of_perm hperm, Belongs.of_perm hperm.symm⟩
  rw [hfilter rows, hfilter other, ← hsame]
  exact hperm.filter _

def knotted : List ProcessRow :=
  [⟨10, 12, 10, 0, 0, false⟩, ⟨12, 10, 12, 0, 0, false⟩, ⟨12, 12, 12, 0, 0, false⟩, ⟨10, 12, 10, 0, 0, false⟩,
    ⟨11, 7, 10, 0, 0, false⟩, ⟨20, 1, 20, 0, 0, false⟩]

theorem treeMembers_knotted :
    knotted.Perm knotted.reverse ∧
      (treeMembers knotted 10 10).Perm (treeMembers knotted.reverse 10 10) :=
  have hperm := (List.reverse_perm knotted).symm
  ⟨hperm, (treeMembers_eq_filter knotted 10 10).2 knotted.reverse hperm⟩

example : (treeMembers knotted 10 10).map (·.pid) = [10, 12, 12, 10, 11] := by
  simp [knotted, treeMembers, descendants, visit, children, inGroup]

-- ---------------------------------------------------------------------------
-- Escaping a tree
-- ---------------------------------------------------------------------------

/-- A row that is left out of the tree, although that of its parent is in it. -/
def Escapes (rows : List ProcessRow) (root pgid : Int) (c : ProcessRow) : Prop :=
  c ∈ rows ∧ c ∉ treeMembers rows root pgid ∧ ∃ r ∈ treeMembers rows root pgid, c.parent = r.pid

def Descends (rows : List ProcessRow) (root pgid pid : Int) : Prop :=
  ∃ first, (first = root ∨ Grouped rows pgid first) ∧ Below rows first pid

theorem Belongs.descends (h : Belongs rows root pgid pid) : Descends rows root pgid pid := by
  rcases h with hbelow | hgroup
  · exact ⟨root, .inl rfl, hbelow⟩
  · exact ⟨pid, .inr hgroup, .refl⟩

theorem escapes_iff :
    Escapes rows root pgid c ↔ c ∈ rows ∧ Grouped rows pgid c.parent ∧ ¬ Belongs rows root pgid c.pid := by
  constructor
  · rintro ⟨hc, hout, r, hr, hparent⟩
    have hnot : ¬ Belongs rows root pgid c.pid := fun hb => hout (mem_treeMembers.mpr ⟨hc, hb⟩)
    refine ⟨hc, ?_, hnot⟩
    rcases (mem_treeMembers.mp hr).2 with hbelow | hgroup
    · exact absurd (.inl (hbelow.child ⟨c, hc, hparent, rfl⟩)) hnot
    · exact hparent ▸ hgroup
  · rintro ⟨hc, ⟨g, hg, hgroup, hpid⟩, hnot⟩
    have hmember : g ∈ treeMembers rows root pgid := mem_treeMembers.mpr ⟨hg, .inr ⟨g, hg, hgroup, rfl⟩⟩
    exact ⟨hc, fun hin => hnot (mem_treeMembers.mp hin).2, g, hmember, hpid.symm⟩

theorem Escapes.descends (h : Escapes rows root pgid c) : Descends rows root pgid c.pid := by
  obtain ⟨hc, hgroup, -⟩ := escapes_iff.mp h
  exact ⟨c.parent, .inr hgroup, .single ⟨c, hc, rfl, rfl⟩⟩

theorem Below.belongs_or_escapes {first : Int} (hbelow : Below rows first pid)
    (h : Belongs rows root pgid first) :
    Belongs rows root pgid pid ∨ ∃ e, Escapes rows root pgid e ∧ Below rows e.pid pid := by
  induction hbelow with
  | refl => exact .inl h
  | @tail parent pid _ hchild ih =>
    by_cases hpid : Belongs rows root pgid pid
    · exact .inl hpid
    rcases ih with (hroot | hgroup) | ⟨e, he, hbelow⟩
    · exact absurd (.inl (hroot.child hchild)) hpid
    · obtain ⟨c, hc, rfl, rfl⟩ := hchild
      exact .inr ⟨c, escapes_iff.mpr ⟨hc, hgroup, hpid⟩, .refl⟩
    · exact .inr ⟨e, he, hbelow.child hchild⟩

/-- A row escapes just when its parent is in the group, but the row neither shares the group nor is it below
the root. What descends from the root or from the group and is still not in the tree has escaped or is below a
row that has. -/
theorem closed_up_to_escapes (rows : List ProcessRow) (root pgid : Int) :
    (∀ c, Escapes rows root pgid c ↔
        c ∈ rows ∧ Grouped rows pgid c.parent ∧ ¬ Belongs rows root pgid c.pid) ∧
      ∀ pid, Descends rows root pgid pid ↔
        Belongs rows root pgid pid ∨ ∃ e, Escapes rows root pgid e ∧ Below rows e.pid pid := by
  refine ⟨fun c => escapes_iff, fun pid => ⟨?_, ?_⟩⟩
  · rintro ⟨first, rfl | hgroup, hbelow⟩
    · exact .inl (.inl hbelow)
    · exact hbelow.belongs_or_escapes (.inr hgroup)
  · rintro (hbelongs | ⟨e, he, hbelow⟩)
    · exact hbelongs.descends
    · obtain ⟨first, hfirst, habove⟩ := he.descends
      exact ⟨first, hfirst, habove.trans hbelow⟩

/-- A member of the group whose parent died, and the worker that it has started in a group of its own. -/
def offloaded : List ProcessRow :=
  [⟨10, 1, 10, 100, 10, false⟩, ⟨11, 1, 10, 100, 10, false⟩, ⟨12, 11, 12, 100, 10, false⟩]

theorem worker_escapes :
    ¬ ∀ (rows : List ProcessRow) (root pgid : Int) (r c : ProcessRow), c ∈ rows →
      r ∈ treeMembers rows root pgid → c.parent = r.pid → c ∈ treeMembers rows root pgid := by
  intro hclosed
  have hworker := hclosed offloaded 10 10 ⟨11, 1, 10, 100, 10, false⟩ ⟨12, 11, 12, 100, 10, false⟩
  simp [offloaded, treeMembers, descendants, visit, children, inGroup] at hworker

end Vigil.ProcessRow
