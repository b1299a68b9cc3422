import Mathlib

/-!
# Hash trees over lists

A list is hashed by joining neighbours level by level until one value
is left; an odd last value moves up unchanged. `JoinTree` keeps what such a
run forgets: which strings were hashed, and how the values were joined.
`build` makes the tree of a list, in the rounds a loop over levels would
take, and `root` hashes it.

What a root says about its list depends on the strings only. Two trees
of one shape with one root have the same leaves, if the hash has no
collision among the strings of the two (`leaves_eq_of_shape`). Across
shapes a leaf may be a joined pair of another tree; where no leaf is,
the root gives back the whole tree (`eq_of_root_eq`).
-/

namespace HashTree

inductive JoinTree (α : Type) where
  | leaf (a : α)
  | node (l r : JoinTree α)

namespace JoinTree

variable {α β : Type}

def map (f : α → β) : JoinTree α → JoinTree β
  | leaf a => leaf (f a)
  | node l r => node (l.map f) (r.map f)

def leaves : JoinTree α → List α
  | leaf a => [a]
  | node l r => l.leaves ++ r.leaves

def shape (t : JoinTree α) : JoinTree Unit := t.map fun _ => ()

end JoinTree

/-! ## Building -/

section Build

variable {α β : Type}

/-- One level up. -/
def pairUp : List (JoinTree α) → List (JoinTree α)
  | l :: r :: rest => .node l r :: pairUp rest
  | ts => ts

def buildLoop : Nat → List (JoinTree α) → Option (JoinTree α)
  | _, [] => none
  | _, [t] => some t
  | 0, t :: _ => some t
  | n + 1, ts => buildLoop n (pairUp ts)

def build (xs : List α) : Option (JoinTree α) := buildLoop xs.length (xs.map .leaf)

theorem buildLoop_cons (n : Nat) (l r : JoinTree α) (rest : List (JoinTree α)) :
    buildLoop (n + 1) (l :: r :: rest) = buildLoop n (pairUp (l :: r :: rest)) := rfl

theorem map_pairUp (f : α → β) (ts : List (JoinTree α)) :
    (pairUp ts).map (JoinTree.map f) = pairUp (ts.map (JoinTree.map f)) := by
  fun_induction pairUp ts with
  | case1 l r rest ih => simp [pairUp, JoinTree.map, ih]
  | case2 ts hne =>
    rcases ts with _ | ⟨l, _ | ⟨r, rest⟩⟩
    · rfl
    · rfl
    · exact absurd rfl (hne l r rest)

theorem map_buildLoop (f : α → β) (n : Nat) (ts : List (JoinTree α)) :
    (buildLoop n ts).map (JoinTree.map f) = buildLoop n (ts.map (JoinTree.map f)) := by
  induction n generalizing ts with
  | zero => rcases ts with _ | ⟨l, _ | ⟨r, rest⟩⟩ <;> rfl
  | succ n ih =>
    rcases ts with _ | ⟨l, _ | ⟨r, rest⟩⟩
    · rfl
    · rfl
    · rw [buildLoop_cons, ih, map_pairUp, List.map_cons, List.map_cons, buildLoop_cons]

/-- The shape of the tree of a list depends on its length only. -/
theorem shape_build {xs : List α} {ys : List β} (h : xs.length = ys.length) :
    (build xs).map JoinTree.shape = (build ys).map JoinTree.shape := by
  have hunit : ∀ (γ : Type) (zs : List γ), (zs.map JoinTree.leaf).map (JoinTree.map fun _ => ()) =
      List.replicate zs.length (JoinTree.leaf ()) := by
    intro γ zs
    rw [List.map_map]
    exact List.map_const' ..
  change (buildLoop _ _).map (JoinTree.map fun _ => ()) = (buildLoop _ _).map (JoinTree.map fun _ => ())
  rw [map_buildLoop, map_buildLoop, hunit, hunit, h]

theorem leaves_pairUp (ts : List (JoinTree α)) :
    (pairUp ts).flatMap JoinTree.leaves = ts.flatMap JoinTree.leaves := by
  fun_induction pairUp ts with
  | case1 l r rest ih => simp [JoinTree.leaves, ih]
  | case2 ts hne => rfl

theorem length_pairUp (ts : List (JoinTree α)) : (pairUp ts).length = (ts.length + 1) / 2 := by
  fun_induction pairUp ts with
  | case1 l r rest ih =>
    simp only [List.length_cons, ih]
    omega
  | case2 ts hne =>
    rcases ts with _ | ⟨l, _ | ⟨r, rest⟩⟩
    · simp
    · simp
    · exact absurd rfl (hne l r rest)

theorem leaves_buildLoop {n : Nat} {ts : List (JoinTree α)} (hn : ts.length ≤ n + 1) :
    ((buildLoop n ts).map JoinTree.leaves).getD [] = ts.flatMap JoinTree.leaves := by
  induction n generalizing ts with
  | zero =>
    rcases ts with _ | ⟨l, _ | ⟨r, rest⟩⟩
    · rfl
    · simp [buildLoop]
    · simp at hn
  | succ n ih =>
    rcases ts with _ | ⟨l, _ | ⟨r, rest⟩⟩
    · rfl
    · simp [buildLoop]
    · have hlength : (pairUp (l :: r :: rest)).length ≤ n + 1 := by
        rw [length_pairUp]
        simp only [List.length_cons] at hn ⊢
        omega
      rw [buildLoop_cons, ih hlength, leaves_pairUp]

/-- The tree of a list has the list as its leaves. -/
theorem leaves_build (xs : List α) : ((build xs).map JoinTree.leaves).getD [] = xs := by
  rw [build, leaves_buildLoop (by simp)]
  induction xs with
  | nil => rfl
  | cons x xs ih => simpa [JoinTree.leaves] using ih

theorem build_eq_none {xs : List α} (h : build xs = none) : xs = [] := by
  have hleaves := leaves_build xs
  rw [h] at hleaves
  exact hleaves.symm

end Build

/-! ## Hashing -/

section Hash

variable {α η : Type} (hash : α → η) (join : η → η → α)

def JoinTree.root : JoinTree α → η
  | leaf a => hash a
  | node l r => hash (join l.root r.root)

/-- The strings that are hashed on the way to the root. -/
def JoinTree.strings : JoinTree α → List α
  | leaf a => [a]
  | node l r => join (l.root hash join) (r.root hash join) :: (l.strings ++ r.strings)

variable {hash join}

/-- No collision among the strings of two trees. -/
def CollisionFree (hash : α → η) (join : η → η → α) (t t' : JoinTree α) : Prop :=
  ∀ x ∈ t.strings hash join, ∀ y ∈ t'.strings hash join, hash x = hash y → x = y

theorem CollisionFree.children {l r l' r' : JoinTree α}
    (h : CollisionFree hash join (.node l r) (.node l' r')) :
    CollisionFree hash join l l' ∧ CollisionFree hash join r r' :=
  ⟨fun x hx y hy => h x (List.mem_cons_of_mem _ (List.mem_append_left _ hx)) y
      (List.mem_cons_of_mem _ (List.mem_append_left _ hy)),
    fun x hx y hy => h x (List.mem_cons_of_mem _ (List.mem_append_right _ hx)) y
      (List.mem_cons_of_mem _ (List.mem_append_right _ hy))⟩

variable (hjoin : ∀ a b a' b' : η, join a b = join a' b' → a = a' ∧ b = b')
include hjoin

theorem roots_of_node {l r l' r' : JoinTree α}
    (h : CollisionFree hash join (.node l r) (.node l' r'))
    (hroot : (JoinTree.node l r).root hash join = (JoinTree.node l' r').root hash join) :
    l.root hash join = l'.root hash join ∧ r.root hash join = r'.root hash join :=
  hjoin _ _ _ _ (h _ List.mem_cons_self _ List.mem_cons_self hroot)

theorem leaves_eq_of_shape {t t' : JoinTree α} (h : CollisionFree hash join t t')
    (hshape : t.shape = t'.shape) (hroot : t.root hash join = t'.root hash join) :
    t.leaves = t'.leaves := by
  induction t generalizing t' with
  | leaf a =>
    cases t' with
    | leaf a' => rw [h a List.mem_cons_self a' List.mem_cons_self hroot]
    | node l' r' => cases hshape
  | node l r ihl ihr =>
    cases t' with
    | leaf a' => cases hshape
    | node l' r' =>
      obtain ⟨hl, hr⟩ := roots_of_node hjoin h hroot
      obtain ⟨hfl, hfr⟩ := h.children
      injection hshape with hsl hsr
      rw [JoinTree.leaves, JoinTree.leaves, ihl hfl hsl hl, ihr hfr hsr hr]

/-- Where no leaf is a joined pair, the root determines the tree. -/
theorem eq_of_root_eq {t t' : JoinTree α} (h : CollisionFree hash join t t')
    (hleaf : ∀ x ∈ t.leaves, ∀ a b, x ≠ join a b) (hleaf' : ∀ x ∈ t'.leaves, ∀ a b, x ≠ join a b)
    (hroot : t.root hash join = t'.root hash join) : t = t' := by
  induction t generalizing t' with
  | leaf a =>
    cases t' with
    | leaf a' => rw [h a List.mem_cons_self a' List.mem_cons_self hroot]
    | node l' r' =>
      exact absurd (h a List.mem_cons_self _ List.mem_cons_self hroot)
        (hleaf a List.mem_cons_self _ _)
  | node l r ihl ihr =>
    cases t' with
    | leaf a' =>
      exact absurd (h _ List.mem_cons_self a' List.mem_cons_self hroot).symm
        (hleaf' a' List.mem_cons_self _ _)
    | node l' r' =>
      obtain ⟨hl, hr⟩ := roots_of_node hjoin h hroot
      obtain ⟨hfl, hfr⟩ := h.children
      rw [ihl hfl (fun x hx => hleaf x (List.mem_append_left _ hx))
          (fun x hx => hleaf' x (List.mem_append_left _ hx)) hl,
        ihr hfr (fun x hx => hleaf x (List.mem_append_right _ hx))
          (fun x hx => hleaf' x (List.mem_append_right _ hx)) hr]

end Hash

end HashTree
