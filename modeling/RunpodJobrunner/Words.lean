import Mathlib.Data.List.Basic

/-!
# Words

The words of a list are its longest runs of kept elements. Replacing each run of the
others by one separator and stripping the separators joins the words (`strip_collapse`),
so two lists come out the same where their words are (`joined_inj`). Nothing here depends
on the program being verified.
-/

namespace RunpodJobrunner

namespace Words

variable {α : Type}

/-- The longest runs of kept elements. -/
def words (kept : α → Bool) (t : List α) : List (List α) :=
  (t.splitOnP fun c => !kept c).filter fun w => !w.isEmpty

/-- Each longest run of the others becomes one separator. `inRun` is whether one has just
been written. -/
def collapse (kept : α → Bool) (sep : α) (inRun : Bool) : List α → List α
  | [] => []
  | c :: t =>
    if kept c then c :: collapse kept sep false t
    else if inRun then collapse kept sep true t
    else sep :: collapse kept sep true t

/-- The words joined by the separator. -/
def joined (sep : α) (ws : List (List α)) : List α := [sep].intercalate ws

theorem joined_cons (sep : α) (w : List α) (ws : List (List α)) :
    joined sep (w :: ws) = w ++ if ws = [] then [] else sep :: joined sep ws := by
  cases ws with
  | nil => simp [joined]
  | cons v ws => simp [joined, List.intercalate_cons_cons]

theorem joined_eq_nil {sep : α} {ws : List (List α)} (h : ∀ w ∈ ws, w ≠ []) :
    joined sep ws = [] ↔ ws = [] := by
  cases ws with
  | nil => exact iff_of_true rfl rfl
  | cons w ws =>
    refine iff_of_false ?_ (List.cons_ne_nil w ws)
    rw [joined_cons]
    exact List.append_ne_nil_of_left_ne_nil (h w List.mem_cons_self) _

theorem ne_nil_of_mem_words {kept : α → Bool} {t w : List α} (h : w ∈ words kept t) : w ≠ [] := by
  simpa using (List.mem_filter.mp h).2

/-- A word has only kept elements. -/
theorem kept_of_mem_words {kept : α → Bool} {t w : List α} (h : w ∈ words kept t) :
    ∀ c ∈ w, kept c = true := by
  have hsplit : ∀ w ∈ t.splitOnP fun c => !kept c, ∀ c ∈ w, kept c = true := by
    clear h
    induction t with
    | nil => simp
    | cons d t ih =>
      obtain ⟨v, vs, hv⟩ := List.exists_cons_of_ne_nil (List.splitOnP_ne_nil (fun c => !kept c) t)
      rw [List.splitOnP_cons_eq_if_modifyHead]
      rw [hv] at ih ⊢
      by_cases hd : kept d = true
      · simp only [hd, Bool.not_true, Bool.false_eq_true, if_false, List.modifyHead_cons]
        exact List.forall_mem_cons.mpr
          ⟨List.forall_mem_cons.mpr ⟨hd, ih v List.mem_cons_self⟩, fun w hw => ih w (.tail _ hw)⟩
      · simp only [hd, Bool.not_false, if_true]
        exact List.forall_mem_cons.mpr ⟨nofun, ih⟩
  exact hsplit w (List.mem_filter.mp h).1

/-- A list that begins with a kept element has words. -/
theorem words_cons_ne_nil {kept : α → Bool} {c : α} (hc : kept c = true) (t : List α) :
    words kept (c :: t) ≠ [] := by
  obtain ⟨v, vs, hv⟩ := List.exists_cons_of_ne_nil (List.splitOnP_ne_nil (fun c => !kept c) t)
  rw [words, List.splitOnP_cons_eq_if_modifyHead, hv]
  simp [hc]

section Strip

variable [BEq α] [LawfulBEq α]

/-- Separators stripped from the end. -/
def rstrip (sep : α) (t : List α) : List α := (t.reverse.dropWhile (· == sep)).reverse

/-- Separators stripped from both ends. -/
def strip (sep : α) (t : List α) : List α := rstrip sep (t.dropWhile (· == sep))

variable {kept : α → Bool} {sep : α} {t : List α}

theorem rstrip_cons (c : α) (t : List α) :
    rstrip sep (c :: t) =
      if rstrip sep t = [] ∧ (c == sep) = true then [] else c :: rstrip sep t := by
  have hdrop : (t.reverse ++ [c]).dropWhile (· == sep) =
      if t.reverse.dropWhile (· == sep) = [] then [c].dropWhile (· == sep)
      else t.reverse.dropWhile (· == sep) ++ [c] := by
    rw [List.dropWhile_append]
    simp only [List.isEmpty_iff]
  rw [rstrip, List.reverse_cons, hdrop, rstrip]
  by_cases hnil : t.reverse.dropWhile (· == sep) = []
  · cases hc : c == sep <;> simp [hnil, hc]
  · simp [hnil]

/-- What collapsing leaves once its end is stripped, with `first` up to the first separator:
the words, or `first` and the words after it. -/
theorem rstrip_collapse (hsep : kept sep = false) {first : List α} {rest : List (List α)}
    (hsplit : t.splitOnP (fun c => !kept c) = first :: rest) :
    rstrip sep (collapse kept sep true t) = joined sep (words kept t) ∧
      rstrip sep (collapse kept sep false t) =
        joined sep (first :: rest.filter fun w => !w.isEmpty) := by
  induction t generalizing first rest with
  | nil =>
    obtain ⟨rfl, rfl⟩ := List.cons.inj hsplit
    exact ⟨rfl, rfl⟩
  | cons c t ih =>
    obtain ⟨v, vs, hv⟩ := List.exists_cons_of_ne_nil (List.splitOnP_ne_nil (fun c => !kept c) t)
    obtain ⟨hin, hout⟩ := ih hv
    rw [List.splitOnP_cons_eq_if_modifyHead, hv] at hsplit
    by_cases hc : kept c = true
    · -- a kept element stays in front of what follows, in or after a run
      have hne : (c == sep) = false := beq_eq_false_iff_ne.mpr fun h => by simp [h, hsep] at hc
      simp only [hc, Bool.not_true, Bool.false_eq_true, if_false, List.modifyHead_cons] at hsplit
      obtain ⟨rfl, rfl⟩ := List.cons.inj hsplit
      have hcollapse : rstrip sep (c :: collapse kept sep false t) =
          joined sep ((c :: v) :: vs.filter fun w => !w.isEmpty) := by
        rw [rstrip_cons, hne, hout, joined_cons, joined_cons]
        simp
      have hwords : words kept (c :: t) = (c :: v) :: vs.filter fun w => !w.isEmpty := by
        rw [words, List.splitOnP_cons_eq_if_modifyHead, hv]
        simp [hc]
      rw [collapse, if_pos hc, hwords, collapse, if_pos hc]
      exact ⟨hcollapse, hcollapse⟩
    · -- another element ends a run of words with at most one separator
      have hwords : words kept (c :: t) = words kept t := by
        rw [words, words, List.splitOnP_cons_eq_if_modifyHead]
        simp [hc]
      simp only [hc, Bool.not_false, if_true] at hsplit
      obtain ⟨rfl, rfl⟩ := List.cons.inj hsplit
      rw [collapse, if_neg hc, if_pos rfl, hwords, collapse, if_neg hc, if_neg Bool.false_ne_true]
      refine ⟨hin, ?_⟩
      have hnil : joined sep (words kept t) = [] ↔ words kept t = [] :=
        joined_eq_nil fun w => ne_nil_of_mem_words
      rw [rstrip_cons, hin, joined_cons, List.nil_append, ← hv]
      change _ = if words kept t = [] then [] else sep :: joined sep (words kept t)
      simp only [beq_self_eq_true, and_true, hnil]

/-- **Collapsing and stripping** joins the words. -/
theorem strip_collapse (hsep : kept sep = false) (t : List α) :
    strip sep (collapse kept sep false t) = joined sep (words kept t) := by
  have hrun :
      ∀ t : List α, (collapse kept sep true t).dropWhile (· == sep) = collapse kept sep true t := by
    intro t
    induction t with
    | nil => rfl
    | cons c t ih =>
      rw [collapse]
      split
      · next hc =>
        have hne : (c == sep) = false := beq_eq_false_iff_ne.mpr fun h => by simp [h, hsep] at hc
        rw [List.dropWhile_cons, hne]
        rfl
      · exact ih
  have hdrop : (collapse kept sep false t).dropWhile (· == sep) = collapse kept sep true t := by
    cases t with
    | nil => rfl
    | cons c t =>
      by_cases hc : kept c = true
      · have hcollapse : collapse kept sep false (c :: t) = collapse kept sep true (c :: t) := by
          rw [collapse, collapse, if_pos hc, if_pos hc]
        rw [hcollapse, hrun]
      · have hcollapse : collapse kept sep true (c :: t) = collapse kept sep true t := by
          rw [collapse, if_neg hc, if_pos rfl]
        rw [hcollapse, collapse, if_neg hc, if_neg Bool.false_ne_true, List.dropWhile_cons,
          beq_self_eq_true]
        exact hrun t
  obtain ⟨first, rest, hsplit⟩ :=
    List.exists_cons_of_ne_nil (List.splitOnP_ne_nil (fun c => !kept c) t)
  rw [strip, hdrop]
  exact (rstrip_collapse hsep hsplit).1

/-- **Words are told apart** by what they join to. -/
theorem joined_words_inj (hsep : kept sep = false) {s : List α} :
    joined sep (words kept s) = joined sep (words kept t) ↔ words kept s = words kept t := by
  have hnot : ∀ t : List α, ∀ w ∈ words kept t, sep ∉ w := fun t w hw hmem => by
    simpa [hsep] using kept_of_mem_words hw sep hmem
  have hempty : ∀ t : List α, joined sep (words kept t) = [] ↔ words kept t = [] :=
    fun t => joined_eq_nil fun w => ne_nil_of_mem_words
  refine ⟨fun h => ?_, congrArg _⟩
  by_cases hs : words kept s = []
  · rw [hs, eq_comm, ← hempty t, ← h, hs]
    rfl
  · have ht : words kept t ≠ [] := fun ht => hs ((hempty s).mp (h.trans ((hempty t).mpr ht)))
    rw [← List.splitOn_intercalate sep (hnot s) hs, ← List.splitOn_intercalate sep (hnot t) ht]
    exact congrArg _ h

end Strip

end Words

end RunpodJobrunner
