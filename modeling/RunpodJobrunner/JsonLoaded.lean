import RunpodJobrunner.JsonRest
import RunpodJobrunner.KeyOrder

/-!
# Loaded values

What `json.loads` returns can be held and written again: its strings are of code points,
its dicts have each key once, and its floats are as `float.__repr__` writes them.
-/

namespace RunpodJobrunner

namespace Json

variable {d : Decoder} {start t u : Text}

/-! ## What is asked of the decoder -/

/-- The float of a literal is written as a literal that is read as the same float. -/
def Decoder.ReadsBack (d : Decoder) : Prop :=
  ∀ l l', d.floatOf l = .literal l' →
    d.floatOf l' = .literal l' ∧ (natText l'.whole).length ≤ maxStrDigits

/-- The dict of some pairs has each key once, and no other members. -/
def Decoder.MakesDicts (d : Decoder) : Prop :=
  ∀ kvs kvs', d.pairs kvs = some kvs' → (kvs'.map Prod.fst).Nodup ∧ kvs' ⊆ kvs

/-- The hook that refuses a repeated key makes dicts. -/
theorem noRepeats_makesDicts {floatOf : FloatLiteral → JsonFloat} :
    Decoder.MakesDicts ⟨floatOf, noRepeats⟩ := by
  intro kvs kvs' h
  simp only [noRepeats] at h
  split at h
  · next hnodup =>
    obtain rfl := Option.some.inj h
    exact ⟨hnodup, List.Subset.refl _⟩
  · cases h

/-! ## Strings -/

@[simp] theorem isUnicode_cons {c : ℕ} : IsUnicode (c :: t) ↔ c < 0x110000 ∧ IsUnicode t :=
  List.forall_mem_cons

/-- The end of a text of code points is one. -/
theorem IsUnicode.suffix (h : IsUnicode t) (hu : u <:+ t) : IsUnicode u :=
  fun c hc => h c (hu.subset hc)

theorem IsUnicode.dropWhile {p : ℕ → Bool} (h : IsUnicode t) : IsUnicode (t.dropWhile p) :=
  h.suffix (List.dropWhile_suffix p)

/-- A hexadecimal digit is below 16. -/
theorem hexValue_lt {c n : ℕ} (h : hexValue c = some n) : n < 16 := by
  unfold hexValue at h
  simp only [isDigit, Bool.and_eq_true, decide_eq_true_eq] at h
  grind

/-- Four of them are below `0x10000`. -/
theorem hexValue4_lt {a b c e n : ℕ} (h : hexValue4 a b c e = some n) : n < 0x10000 := by
  unfold hexValue4 at h
  split at h
  · next ha hb hc he =>
    have := hexValue_lt ha
    have := hexValue_lt hb
    have := hexValue_lt hc
    have := hexValue_lt he
    have := Option.some.inj h
    omega
  · cases h

/-- A short escape stands for an ASCII character. -/
theorem simpleEscape_lt {c n : ℕ} (h : simpleEscape c = some n) : n < 0x80 := by
  unfold simpleEscape at h
  grind

/-- A second half is a low surrogate. -/
theorem lowSurrogate_bounds {n : ℕ} (h : lowSurrogate t = .ok (some n)) :
    0xDC00 ≤ n ∧ n < 0xE000 := by
  unfold lowSurrogate failAt at h
  grind

/-- What is read of a text of code points, and what is left of it, is of code points. -/
def Scanned (p : Text × Text) : Prop := IsUnicode p.1 ∧ IsUnicode p.2

/-- A code point before a scanned string makes another. -/
theorem Scanned.push {c : ℕ} {s : Scan Text} {p : Text × Text} (hc : c < 0x110000)
    (h : ∀ q, s = .ok q → Scanned q) (hp : Json.push c s = .ok p) : Scanned p := by
  cases s with
  | error e => cases hp
  | ok q =>
    obtain rfl := Except.ok.inj hp
    exact ⟨isUnicode_cons.mpr ⟨hc, (h q rfl).1⟩, (h q rfl).2⟩

/-- A string that is read consists of code points. -/
theorem scanString_scanned (h : IsUnicode t) : ∀ p, scanString start t = .ok p → Scanned p := by
  fun_induction scanString start t with
  | case2 t =>
    rintro p ⟨⟩
    exact ⟨List.forall_mem_nil _, (isUnicode_cons.mp h).2⟩
  | case7 a b c' e v hv x hx hhigh hlow hslash ih =>
    simp only [isUnicode_cons] at h
    have hbound := hexValue4_lt hx
    exact fun p => Scanned.push (by omega) (ih h.2.2.2.2.2.2)
  | case8 a b c' e x hx hhigh y h0 h1 h2 h3 h4 h5 w hslash hne hlow ih =>
    simp only [isUnicode_cons] at h
    have hbound := lowSurrogate_bounds hlow
    exact fun p => Scanned.push (by omega) (ih (by tauto))
  | case10 a b c' e v hv x hx hhigh hslash ih =>
    simp only [isUnicode_cons] at h
    have hbound := hexValue4_lt hx
    exact fun p => Scanned.push (by omega) (ih h.2.2.2.2.2.2)
  | case12 e u hu x hx hslash ih =>
    simp only [isUnicode_cons] at h
    have hbound := simpleEscape_lt hx
    exact fun p => Scanned.push (by omega) (ih h.2.2)
  | case15 c t hquote hslash hlow ih =>
    rw [isUnicode_cons] at h
    exact fun p => Scanned.push h.1 (ih h.2)
  | case1 | case3 | case4 | case5 | case6 | case9 | case11 | case13 | case14 => rintro _ ⟨⟩

/-! ## Numbers -/

/-- A number that is read can be stored. -/
theorem numberOf_storable {neg : Bool} {whole frac : Text} {exp : Option (ℕ × Text × Text)} {v : Json}
    (hd : d.ReadsBack) (h : numberOf d neg whole frac exp = .ok v) : Storable d v := by
  unfold numberOf at h
  split at h
  · next l hl =>
    obtain rfl := Except.ok.inj h
    cases hfloat : d.floatOf l with
    | literal l' => exact hd l l' hfloat
    | nan | infinity neg => trivial
  · split at h
    · obtain rfl := Except.ok.inj h
      trivial
    · cases h

/-- A value of a text of code points can be held, and what is left of it is of code points. -/
def Loaded (d : Decoder) (p : Json × Text) : Prop := Storable d p.1 ∧ IsUnicode p.2

/-- `scanNumber_loaded`, after the whole part. -/
theorem scanNumberTail_loaded {neg : Bool} {whole : Text} {p : Json × Text} (hd : d.ReadsBack)
    (h : IsUnicode t) (hp : scanNumberTail d neg whole t = .ok p) : Loaded d p := by
  obtain ⟨v, hv, rfl⟩ := map_ok_iff.mp hp
  have hsuffix := (scanExponent_suffix (scanFraction t).2).trans (scanFraction_suffix t)
  exact ⟨numberOf_storable hd hv, h.suffix hsuffix⟩

/-- `scanNumber_loaded`, after the sign. -/
theorem scanDigits_loaded {neg : Bool} {p : Json × Text} (hd : d.ReadsBack) (h : IsUnicode t)
    (hp : scanDigits d start neg t = .ok p) : Loaded d p := by
  cases t with
  | nil => cases hp
  | cons c t =>
    have ht := (isUnicode_cons.mp h).2
    rw [scanDigits] at hp
    split at hp
    · exact scanNumberTail_loaded hd ht hp
    · split at hp
      · exact scanNumberTail_loaded hd ht.dropWhile hp
      · cases hp

/-- A number that is read can be stored, and code points are left. -/
theorem scanNumber_loaded {p : Json × Text} (hd : d.ReadsBack) (h : IsUnicode t)
    (hp : scanNumber d t = .ok p) : Loaded d p := by
  unfold scanNumber at hp
  split at hp
  · exact scanDigits_loaded hd (isUnicode_cons.mp h).2 hp
  · exact scanDigits_loaded hd h hp

/-- A constant that is read can be stored, and code points are left. -/
theorem scanConstant_loaded {p : Json × Text} (h : IsUnicode t) (hp : scanConstant t = some p) :
    Loaded d p := by
  obtain ⟨q, hq, rfl⟩ := Option.map_eq_some_iff.mp hp
  refine ⟨?_, h.suffix (List.drop_suffix _ _)⟩
  have hmem := List.mem_of_find?_eq_some hq
  simp only [constants, List.mem_cons, List.not_mem_nil, or_false] at hmem
  rcases hmem with rfl | rfl | rfl | rfl | rfl | rfl <;> trivial

/-! ## Values -/

/-- What the hook makes of members that can be stored can be stored. -/
theorem dictOf_storable {kvs : List (Text × Json)} {v : Json} (hd : d.MakesDicts)
    (h : StorableMembers d kvs) (hv : dictOf d kvs = .ok v) : Storable d v := by
  unfold dictOf at hv
  split at hv
  · next kvs' hkvs' =>
    obtain rfl := Except.ok.inj hv
    obtain ⟨hnodup, hsub⟩ := hd kvs kvs' hkvs'
    exact ⟨hnodup, storableMembers_iff.mpr fun p hp => storableMembers_iff.mp h p (hsub hp)⟩
  · cases hv

/-- What follows a character after white space consists of code points. -/
theorem tail_unicode {c : ℕ} (h : IsUnicode t) (ht : skipSpace t = c :: u) : IsUnicode u := by
  have hskipped : IsUnicode (skipSpace t) := h.dropWhile
  rw [ht] at hskipped
  exact (isUnicode_cons.mp hskipped).2

/-- One more step of fuel for a value, for elements and for members. -/
theorem scan_loaded (hreads : d.ReadsBack) (hdicts : d.MakesDicts) (n : ℕ) :
    (∀ t p, IsUnicode t → scanOnce d n t = .ok p → Loaded d p) ∧
    (∀ t p, IsUnicode t → scanItems d n t = .ok p → StorableItems d p.1 ∧ IsUnicode p.2) ∧
    ∀ t p, IsUnicode t → scanMembers d n t = .ok p → StorableMembers d p.1 ∧ IsUnicode p.2 := by
  induction n with
  | zero => exact ⟨nofun, nofun, nofun⟩
  | succ n ih =>
    obtain ⟨hvalue, hitems, hmembers⟩ := ih
    -- by the fuel: a value, the elements and the members use less of it for what they hold
    refine ⟨fun t p h hp => ?_, fun t p h hp => ?_, fun t p h hp => ?_⟩
    · unfold scanOnce at hp
      split at hp
      · cases hp
      · next c u =>
        have hu := (isUnicode_cons.mp h).2
        split at hp
        · obtain ⟨q, hq, rfl⟩ := map_ok_iff.mp hp
          exact scanString_scanned hu q hq
        split at hp
        · split at hp
          · next v hv =>
            obtain ⟨j, hj, rfl⟩ := map_ok_iff.mp hp
            have hempty : StorableMembers d [] := trivial
            exact ⟨dictOf_storable hdicts hempty hj, tail_unicode hu hv⟩
          · split at hp
            · next kvs w hkvs =>
              obtain ⟨j, hj, rfl⟩ := map_ok_iff.mp hp
              obtain ⟨hstorable, hw⟩ := hmembers _ _ hu.dropWhile hkvs
              exact ⟨dictOf_storable hdicts hstorable hj, hw⟩
            · cases hp
        split at hp
        · split at hp
          · next v hv =>
            obtain rfl := Except.ok.inj hp
            exact ⟨trivial, tail_unicode hu hv⟩
          · obtain ⟨q, hq, rfl⟩ := map_ok_iff.mp hp
            exact hitems _ _ hu.dropWhile hq
        split at hp
        · next q hq =>
          obtain rfl := Except.ok.inj hp
          exact scanConstant_loaded h hq
        · exact scanNumber_loaded hreads h hp
    · unfold scanItems at hp
      split at hp
      · cases hp
      · next v u hv =>
        obtain ⟨hstorable, hu⟩ := hvalue _ _ h hv
        split at hp
        · next w hw =>
          obtain rfl := Except.ok.inj hp
          exact ⟨⟨hstorable, trivial⟩, tail_unicode hu hw⟩
        · next w hw =>
          obtain ⟨q, hq, rfl⟩ := map_ok_iff.mp hp
          obtain ⟨hrest, hq⟩ := hitems _ _ (tail_unicode hu hw).dropWhile hq
          exact ⟨⟨hstorable, hrest⟩, hq⟩
        · cases hp
    · unfold scanMembers at hp
      split at hp
      · next u =>
        split at hp
        · cases hp
        · next k v hk =>
          obtain ⟨hkey, hv⟩ := scanString_scanned (isUnicode_cons.mp h).2 _ hk
          split at hp
          · next w hw =>
            split at hp
            · cases hp
            · next j x hj =>
              obtain ⟨hstorable, hx⟩ := hvalue _ _ (tail_unicode hv hw).dropWhile hj
              split at hp
              · next y hy =>
                obtain rfl := Except.ok.inj hp
                exact ⟨⟨hkey, hstorable, trivial⟩, tail_unicode hx hy⟩
              · next y hy =>
                obtain ⟨q, hq, rfl⟩ := map_ok_iff.mp hp
                obtain ⟨hrest, hq⟩ := hmembers _ _ (tail_unicode hx hy).dropWhile hq
                exact ⟨⟨hkey, hstorable, hrest⟩, hq⟩
              · cases hp
          · cases hp
      · cases hp

/-- **What is loaded can be held.** -/
theorem storable_of_loads {v : Json} (hreads : d.ReadsBack) (hdicts : d.MakesDicts) (h : IsUnicode t)
    (hv : loads d t = .ok v) : Storable d v := by
  unfold loads at hv
  split at hv
  · cases hv
  · split at hv
    · cases hv
    · next w u hw =>
      split at hv
      · obtain rfl := Except.ok.inj hv
        exact ((scan_loaded hreads hdicts _).1 _ _ h.dropWhile hw).1
      · cases hv

end Json

end RunpodJobrunner
