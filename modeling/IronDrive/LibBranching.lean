import Mathlib.Algebra.Order.BigOperators.Group.List
import Mathlib.Algebra.Order.Group.Nat
import Mathlib.Data.List.Perm.Basic
import IronDrive.LibFileTree

/-! Branchings in which every way down ends. What is below a node is listed recursively, its children each with
what is below them; a worklist that takes a node off and puts its children on goes through the same nodes, whatever
the order. -/

namespace Lib

universe u

structure Branching (ν : Type u) where
  children : ν → List ν
  rank : ν → Nat
  rank_lt : ∀ node, ∀ child ∈ children node, rank child < rank node

namespace Branching

variable {ν : Type u}

/-- What is below a node: its children, each with what is below it. -/
def below (b : Branching ν) (node : ν) : List ν :=
  (b.children node).attach.flatMap fun child => child.1 :: b.below child.1
termination_by b.rank node
decreasing_by exact b.rank_lt node child.1 child.2

theorem below_eq (b : Branching ν) (node : ν) :
    b.below node = (b.children node).flatMap fun child => child :: b.below child := by
  rw [below, List.flatMap_subtype (g := fun child => child :: b.below child) fun child h => rfl]
  rw [List.unattach_attach]

theorem mem_below_of_child {b : Branching ν} {node child : ν} (h : child ∈ b.children node) :
    child ∈ b.below node ∧ ∀ other ∈ b.below child, other ∈ b.below node := by
  rw [below_eq]
  exact ⟨List.mem_flatMap.mpr ⟨child, h, List.mem_cons_self⟩, fun other hother =>
    List.mem_flatMap.mpr ⟨child, h, List.mem_cons_of_mem _ hother⟩⟩

/-- What is below any of some nodes. -/
def under (b : Branching ν) (nodes : List ν) : List ν := nodes.flatMap b.below

variable {b : Branching ν}

@[simp] theorem under_nil : b.under [] = [] := rfl

@[simp] theorem under_cons (node : ν) (rest : List ν) : b.under (node :: rest) = b.below node ++ b.under rest := by
  simp [under]

@[simp] theorem under_append (left right : List ν) : b.under (left ++ right) = b.under left ++ b.under right := by
  simp [under]

theorem under_perm {nodes nodes' : List ν} (h : nodes.Perm nodes') : (b.under nodes).Perm (b.under nodes') :=
  h.flatMap_right b.below

theorem below_perm (node : ν) : (b.below node).Perm (b.children node ++ b.under (b.children node)) := by
  rw [below_eq]
  have hsplit := List.flatMap_append_perm (b.children node) (fun child => [child]) b.below
  rw [List.flatMap_singleton'] at hsplit
  exact hsplit.symm

/-- Taking a node off a worklist and putting its children on. -/
theorem under_pop (node : ν) (rest : List ν) :
    (b.under (node :: rest)).Perm (b.children node ++ b.under (b.children node ++ rest)) := by
  rw [under_cons, under_append, ← List.append_assoc]
  exact (below_perm node).append_right _

/-- Nodes without children need not be put on. -/
theorem under_filter {p : ν → Bool} (h : ∀ node, p node = false → b.children node = []) (nodes : List ν) :
    b.under (nodes.filter p) = b.under nodes := by
  induction nodes with
  | nil => rfl
  | cons node rest ih =>
      cases hp : p node with
      | true => rw [List.filter_cons_of_pos hp, under_cons, under_cons, ih]
      | false =>
          have hnone : b.below node = [] := by rw [below_eq, h node hp, List.flatMap_nil]
          rw [List.filter_cons_of_neg (by simp [hp]), under_cons, ih, hnone, List.nil_append]

/-- The order of the children makes no difference to what is below. -/
theorem below_perm_of_children {b' : Branching ν} (h : ∀ node, (b.children node).Perm (b'.children node))
    (node : ν) : (b.below node).Perm (b'.below node) := by
  induction hrank : b.rank node using Nat.strongRecOn generalizing node with
  | ind rank ih =>
      rw [below_eq, below_eq]
      refine List.Perm.trans (List.Perm.flatMap_left _ fun child hchild => ?_) ((h node).flatMap_right _)
      exact (ih _ (hrank ▸ b.rank_lt node child hchild) child rfl).cons child

end Branching

/-! ### Trees of files -/

namespace FileTree

variable {t : FileTree} {place : Path}

/-- A tree below its places, as far as the names in it are kept. -/
def branching (t : FileTree) (keep : String → Bool) : Branching Path where
  children place := ((t.children place).filter keep).map fun name => place ++ [name]
  rank place := (t.paths.map List.length).sum - place.length
  rank_lt place child hchild := by
    obtain ⟨name, hname, rfl⟩ := List.mem_map.mp hchild
    have hexists := (t.mem_paths _).mpr (mem_children.mp (List.mem_filter.mp hname).1)
    have hdeep := List.le_sum_of_mem (List.mem_map_of_mem (f := List.length) hexists)
    simp only [List.length_append, List.length_singleton] at hdeep ⊢
    omega

theorem branching_children_of_not_dir {keep : String → Bool} (h : t.node place ≠ some .dir) :
    (t.branching keep).children place = [] := by
  have hnone : t.children place = [] := List.eq_nil_iff_forall_not_mem.mpr fun name hname =>
    mem_children.mp hname (node_append_of_not_dir h (by simp))
  simp [branching, hnone]

/-- What is below a place is what exists there under kept names. -/
theorem mem_below_iff {keep : String → Bool} {p : Path} : p ∈ (t.branching keep).below place ↔
    t.node p ≠ none ∧ ∃ names, names ≠ [] ∧ p = place ++ names ∧ ∀ name ∈ names, keep name = true := by
  induction hrank : (t.branching keep).rank place using Nat.strongRecOn generalizing place with
  | ind rank ih =>
      rw [Branching.below_eq, List.mem_flatMap]
      constructor
      · rintro ⟨child, hchild, hp⟩
        have hless := hrank ▸ (t.branching keep).rank_lt place child hchild
        obtain ⟨name, hname, rfl⟩ := List.mem_map.mp hchild
        obtain ⟨hexists, hkeep⟩ := List.mem_filter.mp hname
        rcases List.mem_cons.mp hp with rfl | hp
        · exact ⟨mem_children.mp hexists, [name], by simp, rfl, by simpa using hkeep⟩
        · obtain ⟨hnode, names, -, rfl, hnames⟩ := (ih _ hless rfl).mp hp
          refine ⟨hnode, name :: names, by simp, by simp, fun other hother => ?_⟩
          rcases List.mem_cons.mp hother with rfl | hother
          · exact hkeep
          · exact hnames other hother
      · rintro ⟨hnode, names, hne, rfl, hnames⟩
        obtain ⟨name, rest, rfl⟩ := List.exists_cons_of_ne_nil hne
        have hsplit : place ++ name :: rest = place ++ [name] ++ rest := by simp
        have hexists : t.node (place ++ [name]) ≠ none := by
          by_cases hrest : rest = []
          · rwa [hrest] at hnode
          · rw [hsplit] at hnode
            rw [node_above (List.prefix_append _ rest) (by simpa using hrest) hnode]
            simp
        have hchild : place ++ [name] ∈ (t.branching keep).children place := List.mem_map.mpr
          ⟨name, List.mem_filter.mpr ⟨mem_children.mpr hexists, hnames name (by simp)⟩, rfl⟩
        refine ⟨place ++ [name], hchild, ?_⟩
        by_cases hrest : rest = []
        · rw [hrest]
          exact List.mem_cons_self
        · have hless := hrank ▸ (t.branching keep).rank_lt place _ hchild
          refine List.mem_cons_of_mem _ ((ih _ hless rfl).mpr ⟨hnode, rest, hrest, hsplit, fun other hother => ?_⟩)
          exact hnames other (List.mem_cons_of_mem _ hother)

/-- Trees with the same entries have the same below each place, in whatever order they list it. -/
theorem below_perm_of_node {t' : FileTree} (h : ∀ p, t'.node p = t.node p) (keep : String → Bool) (place : Path) :
    ((t'.branching keep).below place).Perm ((t.branching keep).below place) := by
  refine Branching.below_perm_of_children (fun place => List.Perm.map _ (List.Perm.filter keep ?_)) place
  refine (List.perm_ext_iff_of_nodup (t'.nodup_children place) (t.nodup_children place)).mpr fun name => ?_
  rw [mem_children, mem_children, h]

end FileTree

end Lib
