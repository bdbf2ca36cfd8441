import RunpodJobrunner.Text

/-!
# Regular expressions

The part of Python's `re` the schemas and the validators use: sets, sequences,
alternatives, repetition, `^`, `$`, `\Z` and lookahead, without `MULTILINE` or
`DOTALL`. `ends r c` lists where a match of `r` from the cursor `c` can stop;
whether a pattern matches never depends on the order a backtracking engine
tries these in. A pattern without anchors and lookahead is `plain`, and what it
spans is given by a language (`Lang`), which is how the theorems below reason.
-/

namespace RunpodJobrunner

/-- A position in the subject: whether it is the very start, and what is left. -/
structure Cursor where
  atStart : Bool
  rest : Text
  deriving DecidableEq

/-- Patterns. -/
inductive Regex : Type where
  /-- one code point of a set -/
  | set : (ℕ → Bool) → Regex
  | eps : Regex
  | seq : Regex → Regex → Regex
  | alt : Regex → Regex → Regex
  | star : Regex → Regex
  /-- `^` -/
  | bol : Regex
  /-- `$`: the end, or just before a final newline -/
  | eol : Regex
  /-- `\Z` -/
  | eos : Regex
  /-- `(?=r)` -/
  | look : Regex → Regex
  /-- `(?!r)` -/
  | nlook : Regex → Regex

namespace Regex

/-- Zero or more rounds of `f`, each of which consumes something. -/
def starEnds (f : Cursor → List Cursor) : ℕ → Cursor → List Cursor
  | 0, c => [c]
  | n + 1, c =>
    c :: ((f c).filter fun d => d.rest.length < c.rest.length).flatMap (starEnds f n)

/-- Where a match from a cursor can stop. -/
def ends : Regex → Cursor → List Cursor
  | set p, c =>
    match c.rest with
    | [] => []
    | x :: rest => if p x then [⟨false, rest⟩] else []
  | eps, c => [c]
  | seq r s, c => (ends r c).flatMap (ends s)
  | alt r s, c => ends r c ++ ends s c
  | star r, c => starEnds (ends r) c.rest.length c
  | bol, c => if c.atStart then [c] else []
  | eol, c => if c.rest = [] ∨ c.rest = [10] then [c] else []
  | eos, c => if c.rest = [] then [c] else []
  | look r, c => if (ends r c).isEmpty then [] else [c]
  | nlook r, c => if (ends r c).isEmpty then [c] else []

/-- Every cursor `re.search` may start from. -/
def starts (atStart : Bool) : Text → List Cursor
  | [] => [⟨atStart, []⟩]
  | x :: t => ⟨atStart, x :: t⟩ :: starts false t

/-- `re.search(r, t) is not None`. -/
def search (r : Regex) (t : Text) : Bool := (starts true t).any fun c => !(ends r c).isEmpty

/-- `re.match(r, t) is not None`. -/
def isMatch (r : Regex) (t : Text) : Bool := !(ends r ⟨true, t⟩).isEmpty

/-- `re.fullmatch(r, t) is not None`. -/
def fullmatch (r : Regex) (t : Text) : Bool := (ends r ⟨true, t⟩).any fun c => c.rest.isEmpty

/-! ## Derived patterns -/

/-- One given code point. -/
def chr (x : ℕ) : Regex := set fun c => c == x

/-- A literal. -/
def lit : Text → Regex
  | [] => eps
  | x :: t => seq (chr x) (lit t)

/-- `r?` -/
def opt (r : Regex) : Regex := alt r eps

/-- `r+` -/
def plus (r : Regex) : Regex := seq r (star r)

/-- `r{n}` -/
def exactly (r : Regex) : ℕ → Regex
  | 0 => eps
  | n + 1 => seq r (exactly r n)

/-- `r{0,n}` -/
def upTo (r : Regex) : ℕ → Regex
  | 0 => eps
  | n + 1 => opt (seq r (upTo r n))

/-- `.`, any code point but a newline. -/
def dot : Regex := set fun c => c != 10

/-! ## Membership in `ends` -/

@[simp] theorem mem_ends_set {p : ℕ → Bool} {c d : Cursor} :
    d ∈ ends (set p) c ↔ ∃ x, p x = true ∧ c.rest = x :: d.rest ∧ d.atStart = false := by
  obtain ⟨b, rest⟩ := c
  obtain ⟨b', rest'⟩ := d
  cases rest with
  | nil => exact iff_of_false nofun (by simp)
  | cons x rest =>
    show ⟨b', rest'⟩ ∈ (if p x then [(⟨false, rest⟩ : Cursor)] else []) ↔ _
    by_cases hx : p x = true
    · simp only [hx, if_true, List.mem_singleton, Cursor.mk.injEq, List.cons.injEq]
      constructor
      · rintro ⟨rfl, rfl⟩
        exact ⟨x, hx, ⟨rfl, rfl⟩, rfl⟩
      · rintro ⟨y, -, ⟨-, rfl⟩, rfl⟩
        exact ⟨rfl, rfl⟩
    · simp only [hx, Bool.false_eq_true, if_false, List.not_mem_nil, false_iff]
      rintro ⟨y, hy, hxy, -⟩
      obtain ⟨rfl, -⟩ := List.cons.inj hxy
      exact hx hy

@[simp] theorem mem_ends_eps {c d : Cursor} : d ∈ ends eps c ↔ d = c := List.mem_singleton

@[simp] theorem mem_ends_seq {r s : Regex} {c d : Cursor} :
    d ∈ ends (seq r s) c ↔ ∃ m ∈ ends r c, d ∈ ends s m := List.mem_flatMap

@[simp] theorem mem_ends_alt {r s : Regex} {c d : Cursor} :
    d ∈ ends (alt r s) c ↔ d ∈ ends r c ∨ d ∈ ends s c := List.mem_append

theorem mem_ite_singleton {q : Prop} [Decidable q] {c d : Cursor} :
    d ∈ (if q then [c] else []) ↔ q ∧ d = c := by
  by_cases h : q <;> simp [h]

@[simp] theorem mem_ends_bol {c d : Cursor} : d ∈ ends bol c ↔ c.atStart = true ∧ d = c :=
  mem_ite_singleton

@[simp] theorem mem_ends_eol {c d : Cursor} :
    d ∈ ends eol c ↔ (c.rest = [] ∨ c.rest = [10]) ∧ d = c :=
  mem_ite_singleton

@[simp] theorem mem_ends_eos {c d : Cursor} : d ∈ ends eos c ↔ c.rest = [] ∧ d = c :=
  mem_ite_singleton

@[simp] theorem mem_ends_look {r : Regex} {c d : Cursor} :
    d ∈ ends (look r) c ↔ (∃ e, e ∈ ends r c) ∧ d = c := by
  show d ∈ (if (ends r c).isEmpty then [] else [c]) ↔ _
  cases h : ends r c <;> simp

@[simp] theorem mem_ends_nlook {r : Regex} {c d : Cursor} :
    d ∈ ends (nlook r) c ↔ (∀ e, e ∉ ends r c) ∧ d = c := by
  show d ∈ (if (ends r c).isEmpty then [c] else []) ↔ _
  cases h : ends r c with
  | nil => simp
  | cons e es =>
    simp only [List.isEmpty_cons, Bool.false_eq_true, if_false, List.not_mem_nil, false_iff]
    rintro ⟨hno, -⟩
    exact hno e List.mem_cons_self

/-- A search succeeds where the pattern matches from some start. -/
theorem search_iff {r : Regex} {t : Text} :
    search r t = true ↔ ∃ c ∈ starts true t, ∃ d, d ∈ ends r c := by
  simp only [search, List.any_eq_true, Bool.not_eq_true', List.isEmpty_eq_false_iff_exists_mem]

/-- `match` succeeds where the pattern matches from the beginning. -/
theorem isMatch_iff {r : Regex} {t : Text} : isMatch r t = true ↔ ∃ d, d ∈ ends r ⟨true, t⟩ := by
  simp only [isMatch, Bool.not_eq_true', List.isEmpty_eq_false_iff_exists_mem]

/-- `fullmatch` succeeds where a match from the beginning takes the whole text. -/
theorem fullmatch_iff {r : Regex} {t : Text} :
    fullmatch r t = true ↔ ∃ d ∈ ends r ⟨true, t⟩, d.rest = [] := by
  simp only [fullmatch, List.any_eq_true, List.isEmpty_iff]

/-- Only the first cursor is at the start. -/
theorem mem_starts_atStart {b : Bool} {t : Text} {c : Cursor} (h : c ∈ starts b t)
    (hc : c.atStart = true) : c = ⟨b, t⟩ ∨ b = false := by
  induction t generalizing b with
  | nil => exact Or.inl (List.mem_singleton.mp h)
  | cons x t ih =>
    rcases List.mem_cons.mp h with h | h
    · exact Or.inl h
    · rcases ih h with rfl | h'
      · exact absurd hc (by simp)
      · -- inside, every cursor is past the start
        exact absurd hc (by
          have hrest : ∀ (t : Text) (d : Cursor), d ∈ starts false t → d.atStart = false := by
            intro t
            induction t with
            | nil => intro d hd; rw [List.mem_singleton.mp hd]
            | cons y t ih =>
              intro d hd
              rcases List.mem_cons.mp hd with rfl | hd
              · rfl
              · exact ih d hd
          rw [hrest t c h]; simp)

/-- A search may start at the beginning. -/
theorem mem_starts_self (b : Bool) (t : Text) : (⟨b, t⟩ : Cursor) ∈ starts b t := by
  cases t <;> simp [starts]

/-- A search anchored by `^` is a match from the start. -/
theorem search_bol {r : Regex} {t : Text} : search (seq bol r) t = isMatch r t := by
  rw [Bool.eq_iff_iff, search_iff, isMatch_iff]
  constructor
  · rintro ⟨c, hc, d, hcd⟩
    obtain ⟨m, hm, hd⟩ := mem_ends_seq.mp hcd
    obtain ⟨hstart, rfl⟩ := mem_ends_bol.mp hm
    rcases mem_starts_atStart hc hstart with rfl | h
    · exact ⟨d, hd⟩
    · exact absurd h (by simp)
  · rintro ⟨d, hd⟩
    exact ⟨⟨true, t⟩, mem_starts_self true t, d,
      mem_ends_seq.mpr ⟨⟨true, t⟩, mem_ends_bol.mpr ⟨rfl, rfl⟩, hd⟩⟩

/-! ## The language of a plain pattern -/

/-- What a pattern spans, ignoring anchors and lookahead (it has none of them
when it is `plain`). -/
inductive Lang : Regex → Text → Prop where
  | set {p : ℕ → Bool} {x : ℕ} : p x = true → Lang (set p) [x]
  | eps : Lang eps []
  | seq {r s : Regex} {u v : Text} : Lang r u → Lang s v → Lang (seq r s) (u ++ v)
  | altLeft {r s : Regex} {u : Text} : Lang r u → Lang (alt r s) u
  | altRight {r s : Regex} {u : Text} : Lang s u → Lang (alt r s) u
  | starNil {r : Regex} : Lang (star r) []
  | starCons {r : Regex} {u v : Text} : Lang r u → u ≠ [] → Lang (star r) v →
      Lang (star r) (u ++ v)

/-- No anchor and no lookahead. -/
def plain : Regex → Bool
  | set _ => true
  | eps => true
  | seq r s => plain r && plain s
  | alt r s => plain r && plain s
  | star r => plain r
  | bol => false
  | eol => false
  | eos => false
  | look _ => false
  | nlook _ => false

@[simp] theorem plain_lit (t : Text) : (lit t).plain = true := by
  induction t with
  | nil => rfl
  | cons x t ih => exact ih

/-- Repeating a plain pattern a number of times is plain. -/
theorem plain_exactly {r : Regex} (hr : r.plain = true) (n : ℕ) :
    (exactly r n).plain = true := by
  induction n with
  | zero => rfl
  | succ n ih => simp [exactly, plain, hr, ih]

/-- Repeating a plain pattern up to a number of times is plain. -/
theorem plain_upTo {r : Regex} (hr : r.plain = true) (n : ℕ) :
    (upTo r n).plain = true := by
  induction n with
  | zero => rfl
  | succ n ih => simp [upTo, opt, plain, hr, ih]

/-- The cursor after a span. -/
def after (c : Cursor) (u rest : Text) : Cursor := ⟨c.atStart && u.isEmpty, rest⟩

/-- Going on from `c` over `u` and then over `v`. -/
theorem after_after (c : Cursor) (u v rest rest' : Text) :
    after (after c u rest') v rest = after c (u ++ v) rest := by
  cases u <;> simp [after]

/-- A loop that ends somewhere has taken a word of the star. -/
theorem starEnds_sound {r : Regex}
    (ih : ∀ c d, d ∈ ends r c → ∃ u, Lang r u ∧ c.rest = u ++ d.rest ∧ d = after c u d.rest) :
    ∀ (n : ℕ) (c d : Cursor), d ∈ starEnds (ends r) n c →
      ∃ u, Lang (star r) u ∧ c.rest = u ++ d.rest ∧ d = after c u d.rest := by
  have hnil : ∀ c : Cursor, ∃ u, Lang (star r) u ∧ c.rest = u ++ c.rest ∧ c = after c u c.rest :=
    fun c => ⟨[], .starNil, rfl, by simp [after]⟩
  intro n
  induction n with
  | zero =>
    intro c d h
    obtain rfl : d = c := List.mem_singleton.mp h
    exact hnil d
  | succ n ihn =>
    intro c d h
    rcases List.mem_cons.mp h with rfl | h
    · exact hnil d
    · obtain ⟨m, hm, hd⟩ := List.mem_flatMap.mp h
      obtain ⟨hm, hlt⟩ := List.mem_filter.mp hm
      obtain ⟨u, hu, hcu, hmu⟩ := ih c m hm
      obtain ⟨v, hv, hmv, hdv⟩ := ihn m d hd
      have hu0 : u ≠ [] := by
        rintro rfl
        simp [hcu] at hlt
      refine ⟨u ++ v, .starCons hu hu0 hv, by rw [hcu, hmv, List.append_assoc], hdv.trans ?_⟩
      rw [hmu, after_after]

/-- A loop with enough fuel ends after every word of the star. -/
theorem starEnds_complete {r : Regex} {u : Text}
    (ih : ∀ (c : Cursor) (u rest : Text), Lang r u → c.rest = u ++ rest →
      after c u rest ∈ ends r c) (hu : Lang (star r) u) :
    ∀ (n : ℕ) (c : Cursor) (rest : Text), u.length ≤ n → c.rest = u ++ rest →
      after c u rest ∈ starEnds (ends r) n c := by
  generalize hs : star r = s at hu
  induction hu with
  | starNil =>
    intro n c rest _ hc
    have : after c [] rest = c := by
      obtain ⟨b, t⟩ := c
      simp_all [after]
    cases n <;> simp [starEnds, this]
  | @starCons r' u v hu hu0 hv _ ihv =>
    obtain rfl : r = r' := by injection hs
    intro n c rest hn hc
    have hpos : 0 < u.length := List.length_pos_iff.mpr hu0
    rw [List.length_append] at hn
    obtain ⟨n, rfl⟩ : ∃ m, n = m + 1 := ⟨n - 1, by omega⟩
    have hm : after c u (v ++ rest) ∈ ends r c := ih c u _ hu (by rw [hc, List.append_assoc])
    refine List.mem_cons_of_mem _ (List.mem_flatMap.mpr ⟨after c u (v ++ rest), ?_, ?_⟩)
    · refine List.mem_filter.mpr ⟨hm, ?_⟩
      simp only [after, hc, List.length_append, decide_eq_true_eq]
      omega
    · rw [← after_after c u v rest (v ++ rest)]
      exact ihv rfl n _ rest (by omega) rfl
  | _ => cases hs

/-- **Plain patterns.** Where a plain pattern stops is what its language spans. -/
theorem mem_ends_plain {r : Regex} (hr : r.plain = true) (c d : Cursor) :
    d ∈ ends r c ↔ ∃ u, Lang r u ∧ c.rest = u ++ d.rest ∧ d = after c u d.rest := by
  -- both directions at once, as the loop of a star needs the two of its body
  suffices h : (∀ c d, d ∈ ends r c → ∃ u, Lang r u ∧ c.rest = u ++ d.rest ∧ d = after c u d.rest) ∧
      ∀ (c : Cursor) (u rest : Text), Lang r u → c.rest = u ++ rest → after c u rest ∈ ends r c by
    refine ⟨h.1 c d, ?_⟩
    rintro ⟨u, hu, hc, hd⟩
    rw [hd]
    exact h.2 c u d.rest hu hc
  induction r with
  | set p =>
    constructor
    · intro c d h
      obtain ⟨x, hx, hc, hd⟩ := mem_ends_set.mp h
      refine ⟨[x], .set hx, hc, ?_⟩
      obtain ⟨b, rest⟩ := d
      simp_all [after]
    · intro c u rest hu hc
      cases hu with
      | set hx => exact mem_ends_set.mpr ⟨_, hx, hc, by simp [after]⟩
  | eps =>
    constructor
    · intro c d h
      obtain rfl := mem_ends_eps.mp h
      exact ⟨[], .eps, rfl, by simp [after]⟩
    · intro c u rest hu hc
      cases hu
      obtain ⟨b, t⟩ := c
      simp_all [after]
  | seq r s ihr ihs =>
    obtain ⟨hr, hs⟩ := Bool.and_eq_true_iff.mp hr
    constructor
    · intro c d h
      obtain ⟨m, hm, hd⟩ := mem_ends_seq.mp h
      obtain ⟨u, hu, hcu, hmu⟩ := (ihr hr).1 c m hm
      obtain ⟨v, hv, hmv, hdv⟩ := (ihs hs).1 m d hd
      refine ⟨u ++ v, .seq hu hv, by rw [hcu, hmv, List.append_assoc], hdv.trans ?_⟩
      rw [hmu, after_after]
    · intro c u rest hu hc
      cases hu with
      | @seq _ _ u v hu hv =>
        refine mem_ends_seq.mpr ⟨after c u (v ++ rest), ?_, ?_⟩
        · exact (ihr hr).2 c u _ hu (by rw [hc, List.append_assoc])
        · rw [← after_after c u v rest (v ++ rest)]
          exact (ihs hs).2 _ v rest hv rfl
  | alt r s ihr ihs =>
    obtain ⟨hr, hs⟩ := Bool.and_eq_true_iff.mp hr
    constructor
    · intro c d h
      rcases mem_ends_alt.mp h with h | h
      · obtain ⟨u, hu, h⟩ := (ihr hr).1 c d h
        exact ⟨u, .altLeft hu, h⟩
      · obtain ⟨u, hu, h⟩ := (ihs hs).1 c d h
        exact ⟨u, .altRight hu, h⟩
    · intro c u rest hu hc
      cases hu with
      | altLeft hu => exact mem_ends_alt.mpr (Or.inl ((ihr hr).2 c u rest hu hc))
      | altRight hu => exact mem_ends_alt.mpr (Or.inr ((ihs hs).2 c u rest hu hc))
  | star r ih =>
    constructor
    · intro c d h
      exact starEnds_sound (ih hr).1 c.rest.length c d h
    · intro c u rest hu hc
      refine starEnds_complete (ih hr).2 hu c.rest.length c rest ?_ hc
      simp [hc]
  -- what looks at its surroundings is not plain
  | bol => cases hr
  | eol => cases hr
  | eos => cases hr
  | look r _ => cases hr
  | nlook r _ => cases hr

/-- `fullmatch` of a plain pattern is membership in its language. -/
theorem fullmatch_plain {r : Regex} (hr : r.plain = true) {t : Text} :
    fullmatch r t = true ↔ Lang r t := by
  rw [fullmatch_iff]
  constructor
  · rintro ⟨d, hd, hrest⟩
    obtain ⟨u, hu, ht, -⟩ := (mem_ends_plain hr _ _).mp hd
    rw [hrest, List.append_nil] at ht
    rw [show t = u from ht]
    exact hu
  · intro h
    exact ⟨after ⟨true, t⟩ t [], (mem_ends_plain hr _ _).mpr ⟨t, h, by simp [after], rfl⟩, rfl⟩

/-- `re.match` of a plain pattern closed by `\Z`. -/
theorem isMatch_eos {r : Regex} (hr : r.plain = true) {t : Text} :
    isMatch (seq r eos) t = true ↔ Lang r t := by
  rw [← fullmatch_plain hr, isMatch_iff, fullmatch_iff]
  constructor
  · rintro ⟨d, hd⟩
    obtain ⟨m, hm, hd⟩ := mem_ends_seq.mp hd
    exact ⟨m, hm, (mem_ends_eos.mp hd).1⟩
  · rintro ⟨m, hm, hrest⟩
    exact ⟨m, mem_ends_seq.mpr ⟨m, hm, mem_ends_eos.mpr ⟨hrest, rfl⟩⟩⟩

/-- `re.match` of a plain pattern closed by `$`: a final newline is let through. -/
theorem isMatch_eol {r : Regex} (hr : r.plain = true) {t : Text} :
    isMatch (seq r eol) t = true ↔ ∃ u, Lang r u ∧ (t = u ∨ t = u ++ [10]) := by
  rw [isMatch_iff]
  constructor
  · rintro ⟨d, hd⟩
    obtain ⟨m, hm, hd⟩ := mem_ends_seq.mp hd
    obtain ⟨u, hu, ht, -⟩ := (mem_ends_plain hr _ _).mp hm
    refine ⟨u, hu, ?_⟩
    rcases (mem_ends_eol.mp hd).1 with h | h
    · exact Or.inl (by simpa [h] using ht)
    · exact Or.inr (by simpa [h] using ht)
  · rintro ⟨u, hu, ht⟩
    have hend : ∀ rest, t = u ++ rest → (rest = [] ∨ rest = [10]) →
        ∃ d, d ∈ ends (seq r eol) ⟨true, t⟩ := fun rest htr hrest =>
      ⟨_, mem_ends_seq.mpr ⟨after ⟨true, t⟩ u rest,
        (mem_ends_plain hr _ _).mpr ⟨u, hu, htr, rfl⟩, mem_ends_eol.mpr ⟨hrest, rfl⟩⟩⟩
    rcases ht with ht | ht
    · exact hend [] (by simpa using ht) (Or.inl rfl)
    · exact hend [10] ht (Or.inr rfl)

/-! ## Languages of the derived patterns -/

/-- The words of a set are its single characters. -/
@[simp] theorem lang_set {p : ℕ → Bool} {u : Text} : Lang (set p) u ↔ ∃ x, p x = true ∧ u = [x] := by
  constructor
  · intro h
    cases h with
    | set hx => exact ⟨_, hx, rfl⟩
  · rintro ⟨x, hx, rfl⟩
    exact .set hx

@[simp] theorem lang_chr {x : ℕ} {u : Text} : Lang (chr x) u ↔ u = [x] := by
  simp [chr]

@[simp] theorem lang_eps {u : Text} : Lang eps u ↔ u = [] := by
  constructor
  · intro h
    cases h
    rfl
  · rintro rfl
    exact .eps

/-- The words of a sequence are those of its parts, one after the other. -/
@[simp] theorem lang_seq {r s : Regex} {u : Text} :
    Lang (seq r s) u ↔ ∃ v w, u = v ++ w ∧ Lang r v ∧ Lang s w := by
  constructor
  · intro h
    cases h with
    | seq hv hw => exact ⟨_, _, rfl, hv, hw⟩
  · rintro ⟨v, w, rfl, hv, hw⟩
    exact .seq hv hw

@[simp] theorem lang_alt {r s : Regex} {u : Text} : Lang (alt r s) u ↔ Lang r u ∨ Lang s u := by
  constructor
  · intro h
    cases h with
    | altLeft h => exact Or.inl h
    | altRight h => exact Or.inr h
  · rintro (h | h)
    · exact .altLeft h
    · exact .altRight h

/-- A literal text has itself as its word. -/
@[simp] theorem lang_lit {t u : Text} : Lang (lit t) u ↔ u = t := by
  induction t generalizing u with
  | nil => simp [lit]
  | cons x t ih =>
    simp only [lit, lang_seq, lang_chr, ih]
    constructor
    · rintro ⟨_, _, rfl, rfl, rfl⟩
      rfl
    · rintro rfl
      exact ⟨[x], t, rfl, rfl, rfl⟩

@[simp] theorem lang_opt {r : Regex} {u : Text} : Lang (opt r) u ↔ Lang r u ∨ u = [] := by
  simp [opt]

/-- The words of a starred set are those of its characters. -/
theorem lang_star_set {p : ℕ → Bool} {u : Text} :
    Lang (star (set p)) u ↔ ∀ c ∈ u, p c = true := by
  constructor
  · intro h
    generalize hs : star (set p) = s at h
    induction h with
    | starNil => simp
    | @starCons r u v hu _ _ _ ih =>
      obtain rfl : set p = r := by injection hs
      obtain ⟨x, hx, rfl⟩ := lang_set.mp hu
      intro c hc
      rcases List.mem_cons.mp hc with rfl | hc
      · exact hx
      · exact ih rfl c hc
    | _ => cases hs
  · intro h
    induction u with
    | nil => exact .starNil
    | cons x u ih =>
      have hx := h x List.mem_cons_self
      exact .starCons (u := [x]) (.set hx) (by simp)
        (ih fun c hc => h c (List.mem_cons_of_mem _ hc))

/-- One character at least. -/
theorem lang_plus_set {p : ℕ → Bool} {u : Text} :
    Lang (plus (set p)) u ↔ u ≠ [] ∧ ∀ c ∈ u, p c = true := by
  simp only [plus, lang_seq, lang_set, lang_star_set]
  constructor
  · rintro ⟨_, w, rfl, ⟨x, hx, rfl⟩, hw⟩
    simpa [hx] using hw
  · rintro ⟨hu, h⟩
    obtain ⟨x, w, rfl⟩ := List.exists_cons_of_ne_nil hu
    exact ⟨[x], w, rfl, ⟨x, h x List.mem_cons_self, rfl⟩, fun c hc => h c (List.mem_cons_of_mem _ hc)⟩

/-- The words of a counted set have that length. -/
theorem lang_exactly_set {p : ℕ → Bool} {n : ℕ} {u : Text} :
    Lang (exactly (set p) n) u ↔ u.length = n ∧ ∀ c ∈ u, p c = true := by
  induction n generalizing u with
  | zero =>
    simp only [exactly, lang_eps, List.length_eq_zero_iff]
    constructor
    · rintro rfl
      simp
    · exact fun h => h.1
  | succ n ih =>
    simp only [exactly, lang_seq, lang_set, ih]
    constructor
    · rintro ⟨_, w, rfl, ⟨x, hx, rfl⟩, hn, hw⟩
      simpa [hx, hn] using hw
    · rintro ⟨hn, h⟩
      obtain ⟨x, w, rfl⟩ := List.exists_cons_of_length_eq_add_one hn
      refine ⟨[x], w, rfl, ⟨x, h x List.mem_cons_self, rfl⟩, ?_, fun c hc =>
        h c (List.mem_cons_of_mem _ hc)⟩
      simpa using hn

/-- The words of a bounded set have that length at most. -/
theorem lang_upTo_set {p : ℕ → Bool} {n : ℕ} {u : Text} :
    Lang (upTo (set p) n) u ↔ u.length ≤ n ∧ ∀ c ∈ u, p c = true := by
  induction n generalizing u with
  | zero =>
    simp only [upTo, lang_eps, Nat.le_zero, List.length_eq_zero_iff]
    constructor
    · rintro rfl
      simp
    · exact fun h => h.1
  | succ n ih =>
    simp only [upTo, lang_opt, lang_seq, lang_set, ih]
    constructor
    · rintro (⟨_, w, rfl, ⟨x, hx, rfl⟩, hn, hw⟩ | rfl)
      · refine ⟨by simp; omega, ?_⟩
        simpa [hx] using hw
      · simp
    · rintro ⟨hn, h⟩
      cases u with
      | nil => exact Or.inr rfl
      | cons x w =>
        refine Or.inl ⟨[x], w, rfl, ⟨x, h x List.mem_cons_self, rfl⟩, ?_, fun c hc =>
          h c (List.mem_cons_of_mem _ hc)⟩
        simp only [List.length_cons] at hn
        omega

end Regex

end RunpodJobrunner
