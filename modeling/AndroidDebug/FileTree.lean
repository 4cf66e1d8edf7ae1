import AndroidDebug.FilePaths
import Mathlib.Data.List.AList
import Mathlib.Data.List.MinMax

/-! Finite trees of files, from which one node after the other can be deleted, and what is left
when a part of the tree is to be kept. -/
namespace FileTree

open FilePaths (Location)

inductive Node (C : Type*) where
  | directory
  | file (content : C)
  deriving DecidableEq, Repr

/-- Whatever is in the tree lies in a directory of the tree. -/
structure Tree (N C : Type*) [DecidableEq N] where
  nodes : AList fun _ : Location N => Node C
  inDirectory : ∀ l n, l ++ [n] ∈ nodes → nodes.lookup l = some .directory

variable {N C : Type*} [DecidableEq N]

namespace Tree

def node (t : Tree N C) (l : Location N) : Option (Node C) := t.nodes.lookup l

def children (t : Tree N C) (l : Location N) : List (Location N) :=
  t.nodes.keys.filter fun m => m ≠ [] ∧ m.dropLast = l

/-- Longer than every location of the tree. -/
def depth (t : Tree N C) : ℕ := (t.nodes.keys.map fun l => l.length + 1).foldr max 0

variable {t : Tree N C} {l m : Location N}

theorem mem_nodes_iff : l ∈ t.nodes ↔ t.node l ≠ none := by
  rw [node, Ne, AList.lookup_eq_none, not_not]

theorem mem_children_iff : m ∈ t.children l ↔ t.node m ≠ none ∧ ∃ n, m = l ++ [n] := by
  rw [children, List.mem_filter, ← AList.mem_keys, mem_nodes_iff, decide_eq_true_eq]
  refine and_congr_right fun _ => ⟨?_, ?_⟩
  · rintro ⟨hne, rfl⟩
    exact ⟨m.getLast hne, (List.dropLast_append_getLast hne).symm⟩
  · rintro ⟨n, rfl⟩
    exact ⟨by simp, List.dropLast_concat⟩

theorem length_lt_depth (h : t.node l ≠ none) : l.length < t.depth := by
  have hmem : l.length + 1 ∈ t.nodes.keys.map fun l => l.length + 1 :=
    List.mem_map.mpr ⟨l, AList.mem_keys.mp (mem_nodes_iff.mpr h), rfl⟩
  exact List.le_max_of_le' 0 hmem (le_refl _)

/-- On the way down to a node there are directories only. -/
theorem node_above {n : N} {x : Location N} (h : t.node (l ++ n :: x) ≠ none) :
    t.node l = some .directory := by
  induction x using List.reverseRecOn with
  | nil => exact t.inDirectory l n (mem_nodes_iff.mpr h)
  | append_singleton x n' ih =>
    apply ih
    have hsplit : l ++ n :: (x ++ [n']) = (l ++ n :: x) ++ [n'] := by simp
    rw [hsplit] at h
    have habove : t.node (l ++ n :: x) = some .directory := t.inDirectory _ n' (mem_nodes_iff.mpr h)
    rw [habove]
    exact Option.some_ne_none _

theorem node_of_descendant (hl : l <+: m) (h : t.node m ≠ none) : t.node l ≠ none := by
  obtain ⟨x, rfl⟩ := hl
  cases x with
  | nil => rwa [List.append_nil] at h
  | cons n x =>
    rw [node_above h]
    exact Option.some_ne_none _

/-- A node below another is that one or lies below one of its children. -/
theorem child_of_descendant (hl : l <+: m) (h : t.node m ≠ none) :
    m = l ∨ ∃ c ∈ t.children l, c <+: m := by
  obtain ⟨x, rfl⟩ := hl
  cases x with
  | nil => exact Or.inl (List.append_nil l)
  | cons n x =>
    have hchild : l ++ [n] <+: l ++ n :: x := ⟨x, by simp⟩
    exact Or.inr ⟨l ++ [n], mem_children_iff.mpr ⟨node_of_descendant hchild h, n, rfl⟩, hchild⟩

theorem children_eq_nil (h : t.node l ≠ some .directory) : t.children l = [] := by
  rw [List.eq_nil_iff_forall_not_mem]
  intro m hm
  obtain ⟨hnode, n, rfl⟩ := mem_children_iff.mp hm
  exact h (node_above hnode)

/-- A file or an empty directory. -/
def delete (t : Tree N C) (l : Location N) : Tree N C :=
  if h : t.children l = [] then
    { nodes := t.nodes.erase l
      inDirectory := by
        intro m n hmem
        have hnode := mem_nodes_iff.mp (AList.mem_erase.mp hmem).2
        have hm : m ≠ l := by
          rintro rfl
          have hchild := mem_children_iff.mpr ⟨hnode, n, rfl⟩
          rw [h] at hchild
          cases hchild
        rw [AList.lookup_erase_ne hm]
        exact t.inDirectory m n (mem_nodes_iff.mpr hnode) }
  else t

/-- A file or an empty directory. -/
def IsLeaf (t : Tree N C) (l : Location N) : Prop :=
  (∃ c, t.node l = some (.file c)) ∨ t.node l = some .directory ∧ t.children l = []

theorem IsLeaf.node_ne_none (h : t.IsLeaf l) : t.node l ≠ none := by
  rcases h with ⟨c, hfile⟩ | ⟨hdir, -⟩
  · rw [hfile]
    exact Option.some_ne_none _
  · rw [hdir]
    exact Option.some_ne_none _

theorem exists_leaf (h : t.node l ≠ none) : ∃ m, l <+: m ∧ t.IsLeaf m := by
  induction hd : t.depth - l.length generalizing l with
  | zero =>
    have := length_lt_depth h
    omega
  | succ d ih =>
    cases hnode : t.node l with
    | none => exact absurd hnode h
    | some node =>
      cases node with
      | file c => exact ⟨l, List.prefix_refl l, .inl ⟨c, hnode⟩⟩
      | directory =>
        by_cases hempty : t.children l = []
        · exact ⟨l, List.prefix_refl l, .inr ⟨hnode, hempty⟩⟩
        · obtain ⟨c, hc⟩ := List.exists_mem_of_ne_nil _ hempty
          obtain ⟨hin, n, rfl⟩ := mem_children_iff.mp hc
          have hlength : (l ++ [n]).length = l.length + 1 := by simp
          obtain ⟨m, hm, hleaf⟩ := ih hin (by omega)
          exact ⟨m, (List.prefix_append l [n]).trans hm, hleaf⟩

theorem IsLeaf.eq_of_descendant (h : t.IsLeaf l) (hl : l <+: m) (hm : t.node m ≠ none) :
    m = l := by
  rcases child_of_descendant hl hm with heq | ⟨c, hc, -⟩
  · exact heq
  · rcases h with ⟨b, hfile⟩ | ⟨-, hempty⟩
    · rw [children_eq_nil (by simp [hfile])] at hc
      cases hc
    · rw [hempty] at hc
      cases hc

end Tree

section Unpacking

/-! What a program makes of nodes that come one by one with the directories above them left
out. -/

variable (out : Location N → Option (Node C))

def makeDirs (l : Location N) : Location N → Option (Node C) :=
  fun m => if m ≠ [] ∧ m <+: l ∧ out m = none then some .directory else out m

def put (l : Location N) : Node C → Location N → Option (Node C)
  | .directory => makeDirs out l
  | .file c => Function.update (makeDirs out l.dropLast) l (some (.file c))

def unpack (es : List (Location N × Node C)) : Location N → Option (Node C) :=
  es.foldl (fun out e => put out e.1 e.2) out

variable {out} {whole : Location N → Option (Node C)} {l m : Location N} {node : Node C}

/-- What has been made so far is part of the whole. -/
def PartOf (out whole : Location N → Option (Node C)) : Prop :=
  ∀ m, out m = none ∨ out m = whole m

theorem makeDirs_ne_none (h : out m ≠ none) : makeDirs out l m = out m := by
  have hnot : ¬(m ≠ [] ∧ m <+: l ∧ out m = none) := fun hm => h hm.2.2
  exact if_neg hnot

theorem partOf_makeDirs (h : PartOf out whole)
    (hdirs : ∀ m, m ≠ [] → m <+: l → whole m = some .directory) :
    PartOf (makeDirs out l) whole := by
  intro m
  by_cases hm : m ≠ [] ∧ m <+: l ∧ out m = none
  · have hmade : makeDirs out l m = some .directory := if_pos hm
    rw [hmade]
    exact .inr (hdirs m hm.1 hm.2.1).symm
  · have hkept : makeDirs out l m = out m := if_neg hm
    rw [hkept]
    exact h m

theorem makeDirs_made (hm : m ≠ []) (hl : m <+: l) : makeDirs out l m ≠ none := by
  by_cases h : out m = none
  · have hmade : makeDirs out l m = some .directory := if_pos ⟨hm, hl, h⟩
    rw [hmade]
    exact Option.some_ne_none _
  · rwa [makeDirs_ne_none h]

theorem put_ne_none (h : out m ≠ none) : put out l node m ≠ none := by
  cases node with
  | directory =>
    rw [put, makeDirs_ne_none h]
    exact h
  | file c =>
    by_cases hm : m = l
    · rw [put, hm, Function.update_self]
      exact Option.some_ne_none _
    · rw [put, Function.update_of_ne hm, makeDirs_ne_none h]
      exact h

omit [DecidableEq N] in
theorem prefix_dropLast (hl : m <+: l) (hne : m ≠ l) : m <+: l.dropLast := by
  rcases List.eq_nil_or_concat' l with rfl | ⟨l', n, rfl⟩
  · exact absurd (List.prefix_nil.mp hl) hne
  · rw [List.dropLast_concat]
    exact (List.prefix_concat_iff.mp hl).resolve_left hne

theorem put_made (hm : m ≠ []) (hl : m <+: l) : put out l node m ≠ none := by
  cases node with
  | directory => exact makeDirs_made hm hl
  | file c =>
    by_cases heq : m = l
    · rw [put, heq, Function.update_self]
      exact Option.some_ne_none _
    · rw [put, Function.update_of_ne heq]
      exact makeDirs_made hm (prefix_dropLast hl heq)

/-- Whatever is in the whole lies in directories of it. -/
def InDirectories (whole : Location N → Option (Node C)) : Prop :=
  ∀ m l, m ≠ [] → m <+: l → m ≠ l → whole l ≠ none → whole m = some .directory

theorem partOf_put (h : PartOf out whole) (hwhole : InDirectories whole)
    (hnode : whole l = some node) : PartOf (put out l node) whole := by
  have hin : whole l ≠ none := by
    rw [hnode]
    exact Option.some_ne_none _
  cases node with
  | directory =>
    apply partOf_makeDirs h
    intro m hm hl
    by_cases heq : m = l
    · rw [heq, hnode]
    · exact hwhole m l hm hl heq hin
  | file c =>
    have hdirs : PartOf (makeDirs out l.dropLast) whole := by
      apply partOf_makeDirs h
      intro m hm hl
      refine hwhole m l hm (hl.trans (List.dropLast_prefix l)) ?_ hin
      rintro rfl
      have hlength := hl.length_le
      have hpos := List.length_pos_of_ne_nil hm
      rw [List.length_dropLast] at hlength
      omega
    intro m
    by_cases heq : m = l
    · rw [put, heq, Function.update_self, hnode]
      exact .inr rfl
    · rw [put, Function.update_of_ne heq]
      exact hdirs m

/-- Nodes of the whole, with something among them below every node, make the whole. -/
theorem unpack_eq {es : List (Location N × Node C)} (hwhole : InDirectories whole)
    (hroot : whole [] = none) (hnodes : ∀ e ∈ es, whole e.1 = some e.2)
    (hcover : ∀ m, whole m ≠ none → ∃ e ∈ es, m <+: e.1) :
    unpack (fun _ => none) es = whole := by
  have hrun : ∀ out, PartOf out whole → PartOf (unpack out es) whole ∧
      (∀ m, out m ≠ none → unpack out es m ≠ none) ∧
      ∀ m, m ≠ [] → (∃ e ∈ es, m <+: e.1) → unpack out es m ≠ none := by
    clear hcover
    induction es with
    | nil =>
      intro out h
      exact ⟨h, fun _ hm => hm, fun _ _ ⟨_, he, _⟩ => absurd he List.not_mem_nil⟩
    | cons e es ih =>
      intro out h
      obtain ⟨hpart, hkept, hmade⟩ := ih (fun e he => hnodes e (List.mem_cons_of_mem _ he))
        (put out e.1 e.2) (partOf_put h hwhole (hnodes e List.mem_cons_self))
      refine ⟨hpart, fun m hm => hkept m (put_ne_none hm), ?_⟩
      rintro m hm ⟨e', he', hl⟩
      rcases List.mem_cons.mp he' with rfl | he'
      · exact hkept m (put_made hm hl)
      · exact hmade m hm ⟨e', he', hl⟩
  obtain ⟨hpart, -, hmade⟩ := hrun (fun _ => none) fun _ => .inl rfl
  funext m
  by_cases hm : whole m = none
  · rcases hpart m with hnone | hsame
    · rw [hnone, hm]
    · exact hsame
  · have hne : m ≠ [] := by
      rintro rfl
      exact hm hroot
    exact (hpart m).resolve_left (hmade m hne (hcover m hm))

end Unpacking

variable (keep : Location N → Option (Node C) → Bool)

/-- The node is kept or has something kept below it. -/
def Kept (t : Tree N C) (l : Location N) : Prop :=
  ∃ q, l <+: q ∧ t.node q ≠ none ∧ keep q (t.node q) = true

def Below (roots : List (Location N)) (l : Location N) : Prop := ∃ r ∈ roots, r <+: l

/-- Below the roots everything is gone but what is kept. -/
structure Pruned (roots : List (Location N)) (t t' : Tree N C) : Prop where
  gone : ∀ l, Below roots l → ¬Kept keep t l → t'.node l = none
  rest : ∀ l, (Below roots l → Kept keep t l) → t'.node l = t.node l

variable {keep} {t t' t'' : Tree N C} {roots : List (Location N)} {l : Location N}

theorem Pruned.refl : Pruned keep [] t t :=
  ⟨fun _ ⟨_, h, _⟩ => absurd h List.not_mem_nil, fun _ _ => rfl⟩

theorem Pruned.node_or (h : Pruned keep roots t t') (l : Location N) :
    t'.node l = t.node l ∨ t'.node l = none := by
  by_cases hrest : Below roots l → Kept keep t l
  · exact Or.inl (h.rest l hrest)
  · rw [Classical.not_imp] at hrest
    exact Or.inr (h.gone l hrest.1 hrest.2)

theorem Pruned.kept_iff (h : Pruned keep roots t t') : Kept keep t' l ↔ Kept keep t l := by
  constructor
  · rintro ⟨q, hq, hnode, hkeep⟩
    have hsame := (h.node_or q).resolve_right hnode
    exact ⟨q, hq, hsame ▸ hnode, hsame ▸ hkeep⟩
  · rintro ⟨q, hq, hnode, hkeep⟩
    have hsame := h.rest q fun _ => ⟨q, List.prefix_refl q, hnode, hkeep⟩
    exact ⟨q, hq, by rwa [hsame], by rwa [hsame]⟩

theorem Pruned.concat {r : Location N} (h : Pruned keep roots t t')
    (h' : Pruned keep [r] t' t'') : Pruned keep (roots ++ [r]) t t'' := by
  constructor
  · rintro l ⟨q, hq, hbelow⟩ hkept
    rcases List.mem_append.mp hq with hq | hq
    · have hnone := h.gone l ⟨q, hq, hbelow⟩ hkept
      rcases h'.node_or l with hsame | hgone
      · rw [hsame, hnone]
      · exact hgone
    · exact h'.gone l ⟨q, hq, hbelow⟩ fun hk => hkept (h.kept_iff.mp hk)
  · intro l hl
    have hfirst := h.rest l fun ⟨q, hq, hbelow⟩ => hl ⟨q, List.mem_append_left _ hq, hbelow⟩
    rw [← hfirst]
    apply h'.rest
    rintro ⟨q, hq, hbelow⟩
    exact h.kept_iff.mpr (hl ⟨q, List.mem_append_right _ hq, hbelow⟩)

/-- What is left after each of the roots has been pruned in turn. -/
theorem Pruned.foldlM {f : Tree N C → Location N → Option (Tree N C)}
    (step : ∀ t', (∀ l, t'.node l ≠ none → t.node l ≠ none) →
      ∀ r ∈ roots, ∃ t'', f t' r = some t'' ∧ Pruned keep [r] t' t'') :
    ∃ t', roots.foldlM f t = some t' ∧ Pruned keep roots t t' := by
  induction roots using List.reverseRecOn with
  | nil => exact ⟨t, rfl, Pruned.refl⟩
  | append_singleton roots r ih =>
    obtain ⟨t', hfold, hpruned⟩ :=
      ih fun t' ht' q hq => step t' ht' q (List.mem_append_left _ hq)
    have hfewer : ∀ l, t'.node l ≠ none → t.node l ≠ none := by
      intro l hl
      rcases hpruned.node_or l with hsame | hgone
      · rwa [← hsame]
      · exact absurd hgone hl
    obtain ⟨t'', hlast, hpruned'⟩ := step t' hfewer r (List.mem_append_right _ List.mem_cons_self)
    refine ⟨t'', ?_, hpruned.concat hpruned'⟩
    rw [List.foldlM_append, hfold]
    simpa using hlast

/-- What is left below the root is kept. -/
theorem Pruned.kept_of_below (h : Pruned keep (t.children l) t t') {m : Location N} (hm : l <+: m)
    (hne : m ≠ l) (hnode : t'.node m ≠ none) : Kept keep t m := by
  have hin : t.node m ≠ none := by
    rcases h.node_or m with hsame | hgone
    · rwa [← hsame]
    · exact absurd hgone hnode
  obtain ⟨c, hc, hbelow⟩ := (Tree.child_of_descendant hm hin).resolve_left hne
  by_contra hkept
  exact hnode (h.gone m ⟨c, hc, hbelow⟩ hkept)

theorem below_children {m : Location N} (h : Below (t.children l) m) : l <+: m ∧ m ≠ l := by
  obtain ⟨c, hc, hbelow⟩ := h
  obtain ⟨-, n, rfl⟩ := Tree.mem_children_iff.mp hc
  refine ⟨(List.prefix_append l [n]).trans hbelow, ?_⟩
  rintro rfl
  have hle := hbelow.length_le
  rw [List.length_append, List.length_singleton] at hle
  omega

/-- The children are pruned and the root is still to be looked at. -/
theorem Pruned.root (h : Pruned keep (t.children l) t t') {m : Location N} (hne : m ≠ l) :
    (Below [l] m → ¬Kept keep t m → t'.node m = none) ∧
      ((Below [l] m → Kept keep t m) → t'.node m = t.node m) := by
  constructor
  · rintro ⟨r, hr, hm⟩ hkept
    obtain rfl := List.mem_singleton.mp hr
    by_contra hnode
    exact hkept (h.kept_of_below hm hne hnode)
  · intro hm
    apply h.rest
    intro hbelow
    exact hm ⟨l, List.mem_singleton_self l, (below_children hbelow).1⟩

end FileTree
