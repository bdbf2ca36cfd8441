import Mathlib.Data.List.Nodup

/-!
# File trees

A tree of directories and leaves. A directory has data of its own, which may close it
to a listing; what is below it can still be found by name. The listing of a tree has
every entry that is found through open directories, and has it once (`mem_entries`,
`entries_nodup`). Nothing here depends on the program being verified.
-/

namespace RunpodJobrunner

/-- Directories with data `δ`, leaves with data `α`, and names `ν` of what is in them. -/
inductive FileTree (ν δ α : Type) : Type where
  | leaf : α → FileTree ν δ α
  | dir : δ → List (ν × FileTree ν δ α) → FileTree ν δ α

/-- What there is besides directories, with data `φ` of a regular file. -/
inductive Leaf (φ : Type) : Type where
  | regular : φ → Leaf φ
  | symlink : Leaf φ
  /-- a FIFO, a socket or a device -/
  | special : Leaf φ

namespace FileTree

variable {ν δ α : Type}

/-- What is at a path, through directories that `opens` lets through. -/
def find [BEq ν] (opens : δ → Bool) : List ν → FileTree ν δ α → Option (FileTree ν δ α)
  | [], t => some t
  | _ :: _, leaf _ => none
  | name :: path, dir d children =>
    if opens d then (children.lookup name).bind (find opens path) else none

mutual

/-- The entries below a tree, by their paths from it. -/
def entries (opens : δ → Bool) : FileTree ν δ α → List (List ν × FileTree ν δ α)
  | leaf _ => []
  | dir d children => if opens d then childEntries opens children else []

/-- The children, and the entries below them. -/
def childEntries (opens : δ → Bool) : List (ν × FileTree ν δ α) → List (List ν × FileTree ν δ α)
  | [] => []
  | (name, t) :: children =>
    ([name], t) :: (entries opens t).map (fun r => (name :: r.1, r.2)) ++ childEntries opens children

end

mutual

/-- Names satisfy `p`, and no directory has one twice. -/
def WellFormed (p : ν → Prop) : FileTree ν δ α → Prop
  | leaf _ => True
  | dir _ children => (children.map Prod.fst).Nodup ∧ WellFormedChildren p children

/-- In every child. -/
def WellFormedChildren (p : ν → Prop) : List (ν × FileTree ν δ α) → Prop
  | [] => True
  | (name, t) :: children => p name ∧ WellFormed p t ∧ WellFormedChildren p children

end

/-- A tree is a leaf, or a directory of trees. -/
@[elab_as_elim] theorem induct {motive : FileTree ν δ α → Prop} (leaf : ∀ a, motive (.leaf a))
    (dir : ∀ d children, (∀ c ∈ children, motive c.2) → motive (.dir d children))
    (t : FileTree ν δ α) : motive t :=
  @FileTree.rec ν δ α motive (fun children => ∀ c ∈ children, motive c.2) (fun c => motive c.2)
    leaf dir nofun (fun _ _ hc hcs => List.forall_mem_cons.mpr ⟨hc, hcs⟩) (fun _ _ ht => ht) t

section

variable {p : ν → Prop} {opens : δ → Bool} {t u : FileTree ν δ α} {d : δ} {path : List ν}
  {name : ν} {children : List (ν × FileTree ν δ α)}

@[simp] theorem wellFormed_dir : WellFormed p (dir d children) ↔
    (children.map Prod.fst).Nodup ∧ ∀ c ∈ children, p c.1 ∧ WellFormed p c.2 := by
  rw [WellFormed]
  refine and_congr .rfl ?_
  induction children with
  | nil => simp [WellFormedChildren]
  | cons c children ih => simp [WellFormedChildren, ih, and_assoc]

theorem mem_childEntries : (path, u) ∈ childEntries opens children ↔
    ∃ c ∈ children, path = [c.1] ∧ u = c.2 ∨
      ∃ rest, (rest, u) ∈ entries opens c.2 ∧ path = c.1 :: rest := by
  induction children with
  | nil => simp [childEntries]
  | cons c children ih =>
    obtain ⟨name, t⟩ := c
    rw [childEntries, List.cons_append, List.mem_cons, List.mem_append, ih, List.mem_map]
    simp only [List.exists_mem_cons_iff, Prod.mk.injEq, Prod.exists]
    constructor
    · rintro (⟨rfl, rfl⟩ | ⟨rest, v, hmem, rfl, rfl⟩ | h)
      · exact .inl (.inl ⟨rfl, rfl⟩)
      · exact .inl (.inr ⟨rest, hmem, rfl⟩)
      · exact .inr h
    · rintro ((⟨rfl, rfl⟩ | ⟨rest, hmem, rfl⟩) | h)
      · exact .inl ⟨rfl, rfl⟩
      · exact .inr (.inl ⟨rest, u, hmem, rfl, rfl⟩)
      · exact .inr (.inr h)

theorem mem_entries_dir : (path, u) ∈ entries opens (dir d children) ↔
    opens d = true ∧ ∃ c ∈ children, path = [c.1] ∧ u = c.2 ∨
      ∃ rest, (rest, u) ∈ entries opens c.2 ∧ path = c.1 :: rest := by
  rw [entries]
  split
  · next h => rw [mem_childEntries, and_iff_right h]
  · next h => exact iff_of_false List.not_mem_nil fun h' => h h'.1

/-- Every component of a path is a name. -/
theorem names_of_mem (ht : WellFormed p t) (h : (path, u) ∈ entries opens t) :
    path ≠ [] ∧ (∀ name ∈ path, p name) ∧ WellFormed p u := by
  induction t using induct generalizing path with
  | leaf a => cases h
  | dir d children ih =>
    obtain ⟨-, hchildren⟩ := wellFormed_dir.mp ht
    obtain ⟨-, c, hc, ⟨rfl, rfl⟩ | ⟨rest, hrest, rfl⟩⟩ := mem_entries_dir.mp h
    · obtain ⟨hname, hwf⟩ := hchildren c hc
      exact ⟨List.cons_ne_nil _ _, fun name hmem => List.mem_singleton.mp hmem ▸ hname, hwf⟩
    · obtain ⟨hname, hwf⟩ := hchildren c hc
      obtain ⟨-, hnames, hu⟩ := ih c hc hwf hrest
      exact ⟨List.cons_ne_nil _ _, List.forall_mem_cons.mpr ⟨hname, hnames⟩, hu⟩

theorem lookup_iff [BEq ν] [LawfulBEq ν] (h : (children.map Prod.fst).Nodup) :
    children.lookup name = some t ↔ (name, t) ∈ children := by
  induction children with
  | nil => simp
  | cons c children ih =>
    obtain ⟨n, u⟩ := c
    rw [List.map_cons, List.nodup_cons] at h
    rw [List.lookup_cons, List.mem_cons, Prod.mk.injEq]
    by_cases heq : name = n
    · subst heq
      have hnot : (name, t) ∉ children := fun hmem => h.1 (List.mem_map.mpr ⟨_, hmem, rfl⟩)
      simp [hnot, eq_comm]
    · have hne : (name == n) = false := beq_eq_false_iff_ne.mpr heq
      rw [hne, ih h.2]
      simp [heq]

/-- **The listing** of a tree: what is found below it. -/
theorem mem_entries [BEq ν] [LawfulBEq ν] (ht : WellFormed p t) :
    (path, u) ∈ entries opens t ↔ path ≠ [] ∧ t.find opens path = some u := by
  induction t using induct generalizing path with
  | leaf a =>
    cases path with
    | nil => simp [entries]
    | cons name path => simp [entries, find]
  | dir d children ih =>
    obtain ⟨hnodup, hchildren⟩ := wellFormed_dir.mp ht
    rw [mem_entries_dir]
    cases path with
    | nil => simp
    | cons name path =>
      rw [find, and_iff_right (List.cons_ne_nil _ _)]
      constructor
      · rintro ⟨hopen, c, hc, ⟨hpath, rfl⟩ | ⟨rest, hrest, hpath⟩⟩
        · obtain ⟨rfl, rfl⟩ := List.cons.inj hpath
          rw [if_pos hopen, (lookup_iff hnodup).mpr hc]
          rfl
        · obtain ⟨rfl, rfl⟩ := List.cons.inj hpath
          rw [if_pos hopen, (lookup_iff hnodup).mpr hc]
          exact ((ih c hc (hchildren c hc).2).mp hrest).2
      · intro h
        split at h
        · next hopen =>
          obtain ⟨v, hv, hfind⟩ := Option.bind_eq_some_iff.mp h
          have hc := (lookup_iff hnodup).mp hv
          refine ⟨hopen, (name, v), hc, ?_⟩
          cases path with
          | nil => exact .inl ⟨rfl, (Option.some.inj hfind).symm⟩
          | cons next path =>
            exact .inr ⟨_, (ih _ hc (hchildren _ hc).2).mpr ⟨List.cons_ne_nil _ _, hfind⟩, rfl⟩
        · cases h

/-- No path is listed twice. -/
theorem entries_nodup (ht : WellFormed p t) : ((entries opens t).map Prod.fst).Nodup := by
  induction t using induct with
  | leaf a => simp [entries]
  | dir d children ih =>
    obtain ⟨hnodup, hchildren⟩ := wellFormed_dir.mp ht
    rw [entries]
    split
    · clear ht
      induction children with
      | nil => simp [childEntries]
      | cons c children ihc =>
        obtain ⟨name, t⟩ := c
        rw [List.map_cons, List.nodup_cons] at hnodup
        have hrest := ihc (fun c hc => ih c (List.mem_cons_of_mem _ hc)) hnodup.2
          fun c hc => hchildren c (List.mem_cons_of_mem _ hc)
        have hbelow := ih _ List.mem_cons_self (hchildren _ List.mem_cons_self).2
        have hnonempty : ∀ rest v, (rest, v) ∈ entries opens t → rest ≠ [] := fun rest v hmem =>
          (names_of_mem (hchildren _ List.mem_cons_self).2 hmem).1
        -- what is below a child starts with its name
        have hfirst : ∀ path ∈ (childEntries opens children).map Prod.fst, ∃ n ∈
            children.map Prod.fst, path.head? = some n := by
          intro path hpath
          obtain ⟨⟨q, v⟩, hmem, rfl⟩ := List.mem_map.mp hpath
          obtain ⟨c, hc, ⟨rfl, -⟩ | ⟨rest, -, rfl⟩⟩ := mem_childEntries.mp hmem
          · exact ⟨c.1, List.mem_map_of_mem hc, rfl⟩
          · exact ⟨c.1, List.mem_map_of_mem hc, rfl⟩
        have hother : ∀ path ∈ (childEntries opens children).map Prod.fst,
            path.head? ≠ some name := by
          intro path hpath heq
          obtain ⟨n, hn, hhead⟩ := hfirst path hpath
          exact hnodup.1 (Option.some.inj (heq.symm.trans hhead) ▸ hn)
        rw [childEntries, List.cons_append, List.map_cons, List.map_append, List.map_map,
          List.nodup_cons, List.nodup_append]
        refine ⟨?_, ?_, hrest, ?_⟩
        · intro hmem
          rcases List.mem_append.mp hmem with hmem | hmem
          · obtain ⟨⟨rest, v⟩, hv, heq⟩ := List.mem_map.mp hmem
            exact hnonempty rest v hv (List.cons.inj heq).2
          · exact hother _ hmem rfl
        · have hmap : (entries opens t).map (Prod.fst ∘ fun r => (name :: r.1, r.2)) =
              ((entries opens t).map Prod.fst).map (name :: ·) := by
            rw [List.map_map]
            rfl
          rw [hmap]
          exact hbelow.map fun _ _ h => (List.cons.inj h).2
        · intro path hpath path' hpath' heq
          obtain ⟨⟨rest, v⟩, -, rfl⟩ := List.mem_map.mp hpath
          exact hother path' hpath' (heq ▸ rfl)
    · exact List.nodup_nil

theorem find_append [BEq ν] {p q : List ν} (h : t.find opens p = some u) :
    t.find opens (p ++ q) = u.find opens q := by
  induction p generalizing t with
  | nil =>
    obtain rfl := Option.some.inj h
    rfl
  | cons name p ih =>
    cases t with
    | leaf a => cases h
    | dir d children =>
      rw [find] at h
      rw [List.cons_append, find]
      split at h
      · next hopen =>
        obtain ⟨v, hv, hu⟩ := Option.bind_eq_some_iff.mp h
        rw [if_pos hopen, hv]
        exact ih hu
      · cases h

/-- Where every directory is open, everything is found. -/
theorem find_congr [BEq ν] {opens' : δ → Bool}
    (h : ∀ path d children, t.find opens path = some (.dir d children) → opens' d = opens d) :
    t.find opens' path = t.find opens path := by
  induction path generalizing t with
  | nil => rfl
  | cons name path ih =>
    cases t with
    | leaf a => rfl
    | dir d children =>
      rw [find, find, h [] d children rfl]
      split
      · next hopen =>
        cases hname : children.lookup name with
        | none => rfl
        | some v =>
          refine ih fun q d' cs hdir => h (name :: q) d' cs ?_
          rw [find, if_pos hopen, hname]
          exact hdir
      · rfl

/-- Where every directory is open, everything is listed. -/
theorem entries_congr [BEq ν] [LawfulBEq ν] {opens' : δ → Bool}
    (ht : WellFormed p t)
    (h : ∀ path d children, t.find opens path = some (.dir d children) → opens' d = opens d) :
    entries opens' t = entries opens t := by
  induction t using induct with
  | leaf a => rfl
  | dir d children ih =>
    obtain ⟨hnodup, hchildren⟩ := wellFormed_dir.mp ht
    rw [entries, entries, h [] d children rfl]
    split
    · next hopen =>
      have hsub :
          ∀ cs, (∀ c ∈ cs, c ∈ children) → childEntries opens' cs = childEntries opens cs := by
        intro cs hcs
        induction cs with
        | nil => rfl
        | cons c cs ihc =>
          have hc := hcs c List.mem_cons_self
          have hfind : (dir d children).find opens [c.1] = some c.2 := by
            rw [find, if_pos hopen, (lookup_iff hnodup).mpr hc]
            rfl
          have hbelow := ih c hc (hchildren c hc).2 fun path d' cs' hdir =>
            h (c.1 :: path) d' cs' ((find_append hfind).trans hdir)
          rw [childEntries, childEntries, hbelow,
            ihc fun c' hc' => hcs c' (List.mem_cons_of_mem _ hc')]
      exact hsub children fun _ hc => hc
    · rfl

end

end FileTree

end RunpodJobrunner
