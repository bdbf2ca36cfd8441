import RunpodJobrunner.JsonText

/-!
# What is left of a text

The scanner without the values it reads and without its fuel: the text that is left after
a value, after the elements of an array and after the members of an object, or the error.
Every scan that succeeds takes some of the text, so enough fuel is as good as any, and the
scanner satisfies the equations of a recursive descent.
-/

namespace RunpodJobrunner

namespace Json

variable {d : Decoder} {start start' t u : Text} {n m : ℕ}

/-! ## Every scan takes some of the text -/

/-- Less is left than there was. -/
def Takes {α : Type} (t : Text) (p : α × Text) : Prop := p.2.length < t.length

/-- A character more is taken with what follows it. -/
theorem Takes.push {c : ℕ} {s : Scan Text} {p : Text × Text} (hu : u.length ≤ t.length)
    (h : ∀ q, s = .ok q → Takes u q) (hp : Json.push c s = .ok p) : Takes t p := by
  obtain ⟨q, hq, rfl⟩ := map_ok_iff.mp hp
  exact (h q hq).trans_le hu

/-- A string takes its closing quote at least. -/
theorem scanString_takes : ∀ p, scanString start t = .ok p → Takes t p := by
  fun_induction scanString start t with
  | case2 t =>
    rintro p ⟨⟩
    exact Nat.lt_succ_self _
  | case7 a b c' e v hv x hx hhigh hlow hslash ih =>
    exact fun p => Takes.push (by simp only [List.length_cons]; omega) ih
  | case8 a b c' e x hx hhigh y h0 h1 h2 h3 h4 h5 w hslash hne hlow ih =>
    exact fun p => Takes.push (by simp only [List.length_cons]; omega) ih
  | case10 a b c' e v hv x hx hhigh hslash ih =>
    exact fun p => Takes.push (by simp only [List.length_cons]; omega) ih
  | case12 e u hu x hx hslash ih =>
    exact fun p => Takes.push (by simp only [List.length_cons]; omega) ih
  | case15 c t hquote hslash hlow ih => exact fun p => Takes.push (Nat.le_succ _) ih
  | case1 | case3 | case4 | case5 | case6 | case9 | case11 | case13 | case14 => exact nofun

/-- What follows a fraction is an end of the text. -/
theorem scanFraction_suffix (t : Text) : (scanFraction t).2 <:+ t := by
  unfold scanFraction
  split
  · split
    · exact (List.dropWhile_suffix _).trans ((List.suffix_cons _ _).trans (List.suffix_cons _ _))
    · exact List.suffix_refl _
  · exact List.suffix_refl _

/-- What follows a sign is an end of the text. -/
theorem scanSign_suffix (t : Text) : (scanSign t).2 <:+ t := by
  unfold scanSign
  split
  · split
    · exact List.suffix_cons _ _
    · exact List.suffix_refl _
  · exact List.suffix_refl _

/-- What follows an exponent is an end of the text. -/
theorem scanExponent_suffix (t : Text) : (scanExponent t).2 <:+ t := by
  unfold scanExponent
  split
  · split
    · dsimp only
      split
      · exact List.suffix_refl _
      · exact (List.dropWhile_suffix _).trans ((scanSign_suffix _).trans (List.suffix_cons _ _))
    · exact List.suffix_refl _
  · exact List.suffix_refl _

/-- The fraction and the exponent take no more than there is. -/
theorem scanNumberTail_takes {neg : Bool} {whole : Text} {p : Json × Text}
    (hp : scanNumberTail d neg whole t = .ok p) : p.2.length ≤ t.length := by
  obtain ⟨v, -, rfl⟩ := map_ok_iff.mp hp
  exact ((scanExponent_suffix _).trans (scanFraction_suffix t)).length_le

/-- The digits of a number take something. -/
theorem scanDigits_takes {neg : Bool} {p : Json × Text} (hp : scanDigits d start neg t = .ok p) :
    Takes t p := by
  cases t with
  | nil => cases hp
  | cons c t =>
    rw [scanDigits] at hp
    split at hp
    · exact Nat.lt_succ_of_le (scanNumberTail_takes hp)
    · split at hp
      · have hdrop := (List.dropWhile_suffix (l := t) isDigit).length_le
        exact Nat.lt_succ_of_le ((scanNumberTail_takes hp).trans hdrop)
      · cases hp

/-- A number takes something, with or without a sign. -/
theorem scanNumber_takes {p : Json × Text} (hp : scanNumber d t = .ok p) : Takes t p := by
  unfold scanNumber at hp
  split at hp
  · exact (scanDigits_takes hp).trans (Nat.lt_succ_self _)
  · exact scanDigits_takes hp

/-- A constant takes its name. -/
theorem scanConstant_takes {p : Json × Text} (hp : scanConstant t = some p) : Takes t p := by
  obtain ⟨q, hq, rfl⟩ := Option.map_eq_some_iff.mp hp
  have hfound := List.find?_some (p := fun p : Text × Json => p.1.isPrefixOf t) hq
  have hprefix := List.isPrefixOf_iff_prefix.mp hfound
  have hmem := List.mem_of_find?_eq_some hq
  have hne : q.1 ≠ [] := by
    have hall : ∀ q ∈ constants, q.1 ≠ [] := by decide
    exact hall q hmem
  have hpos := List.length_pos_iff.mpr hne
  have hle := hprefix.length_le
  show (t.drop q.1.length).length < t.length
  rw [List.length_drop]
  omega

/-- Skipping leaves no more than there was. -/
theorem skipSpace_length (t : Text) : (skipSpace t).length ≤ t.length :=
  (List.dropWhile_suffix _).length_le

/-- Less is left once the character after the white space is taken too. -/
theorem length_of_skipSpace {c : ℕ} (h : skipSpace t = c :: u) : u.length < t.length := by
  have hle := skipSpace_length t
  rw [h] at hle
  exact hle

/-- Values, elements and members each take some of the text. -/
theorem scan_takes (n : ℕ) :
    (∀ t p, scanOnce d n t = .ok p → Takes t p) ∧ (∀ t p, scanItems d n t = .ok p → Takes t p) ∧
      ∀ t p, scanMembers d n t = .ok p → Takes t p := by
  induction n with
  | zero => exact ⟨nofun, nofun, nofun⟩
  | succ n ih =>
    obtain ⟨hvalue, hitems, hmembers⟩ := ih
    refine ⟨fun t p hp => ?_, fun t p hp => ?_, fun t p hp => ?_⟩
    · unfold scanOnce at hp
      split at hp
      · cases hp
      · next c u =>
        have hskip := skipSpace_length u
        split at hp
        · obtain ⟨q, hq, rfl⟩ := map_ok_iff.mp hp
          exact (scanString_takes q hq).trans (Nat.lt_succ_self _)
        split at hp
        · split at hp
          · next v hv =>
            obtain ⟨j, -, rfl⟩ := map_ok_iff.mp hp
            exact (length_of_skipSpace hv).trans (Nat.lt_succ_self _)
          · split at hp
            · next kvs w hkvs =>
              obtain ⟨j, -, rfl⟩ := map_ok_iff.mp hp
              exact ((hmembers _ _ hkvs).trans_le hskip).trans (Nat.lt_succ_self _)
            · cases hp
        split at hp
        · split at hp
          · next v hv =>
            obtain rfl := Except.ok.inj hp
            exact (length_of_skipSpace hv).trans (Nat.lt_succ_self _)
          · obtain ⟨q, hq, rfl⟩ := map_ok_iff.mp hp
            exact ((hitems _ _ hq).trans_le hskip).trans (Nat.lt_succ_self _)
        split at hp
        · next q hq =>
          obtain rfl := Except.ok.inj hp
          exact scanConstant_takes hq
        · exact scanNumber_takes hp
    · unfold scanItems at hp
      split at hp
      · cases hp
      · next v u hv =>
        have hu := hvalue _ _ hv
        split at hp
        · next w hw =>
          obtain rfl := Except.ok.inj hp
          exact (length_of_skipSpace hw).trans hu
        · next w hw =>
          obtain ⟨q, hq, rfl⟩ := map_ok_iff.mp hp
          exact (((hitems _ _ hq).trans_le (skipSpace_length w)).trans
            (length_of_skipSpace hw)).trans hu
        · cases hp
    · unfold scanMembers at hp
      split at hp
      · next u =>
        split at hp
        · cases hp
        · next k v hk =>
          have hv := (scanString_takes _ hk).trans (Nat.lt_succ_self u.length)
          split at hp
          · next w hw =>
            split at hp
            · cases hp
            · next j x hj =>
              have hx :=
                (((hvalue _ _ hj).trans_le (skipSpace_length w)).trans
                  (length_of_skipSpace hw)).trans hv
              split at hp
              · next y hy =>
                obtain rfl := Except.ok.inj hp
                exact (length_of_skipSpace hy).trans hx
              · next y hy =>
                obtain ⟨q, hq, rfl⟩ := map_ok_iff.mp hp
                exact (((hmembers _ _ hq).trans_le (skipSpace_length y)).trans
                  (length_of_skipSpace hy)).trans hx
              · cases hp
          · cases hp
      · cases hp

/-! ## Enough fuel -/

/-- With two steps for each character, the fuel does not matter. -/
theorem scan_fuel (k : ℕ) :
    (∀ t n m, t.length ≤ k → 2 * t.length ≤ n → 2 * t.length ≤ m → scanOnce d n t = scanOnce d m t) ∧
    (∀ t n m, t.length ≤ k → 2 * t.length < n → 2 * t.length < m →
      scanItems d n t = scanItems d m t) ∧
    ∀ t n m, t.length ≤ k → 2 * t.length < n → 2 * t.length < m →
      scanMembers d n t = scanMembers d m t := by
  induction k with
  | zero =>
    have honce : ∀ n, scanOnce d n [] = failAt .expectingValue [] := fun n => by cases n <;> rfl
    refine ⟨fun t n m ht _ _ => ?_, fun t n m ht hn hm => ?_, fun t n m ht hn hm => ?_⟩
    all_goals obtain rfl := List.length_eq_zero_iff.mp (Nat.le_zero.mp ht)
    · rw [honce, honce]
    · obtain ⟨n, rfl⟩ := Nat.exists_eq_add_one_of_ne_zero (Nat.ne_of_gt hn)
      obtain ⟨m, rfl⟩ := Nat.exists_eq_add_one_of_ne_zero (Nat.ne_of_gt hm)
      rw [scanItems, scanItems, honce, honce]
      rfl
    · obtain ⟨n, rfl⟩ := Nat.exists_eq_add_one_of_ne_zero (Nat.ne_of_gt hn)
      obtain ⟨m, rfl⟩ := Nat.exists_eq_add_one_of_ne_zero (Nat.ne_of_gt hm)
      rfl
  | succ k ih =>
    obtain ⟨hvalue, hitems, hmembers⟩ := ih
    -- one character is taken from the text and one step from the fuel
    have honce : ∀ t n m, t.length ≤ k + 1 → 2 * t.length ≤ n → 2 * t.length ≤ m →
        scanOnce d n t = scanOnce d m t := by
      intro t n m ht hn hm
      cases t with
      | nil => cases n <;> cases m <;> rfl
      | cons c u =>
        simp only [List.length_cons] at ht hn hm
        obtain ⟨n, rfl⟩ := Nat.exists_eq_add_one_of_ne_zero (by omega : n ≠ 0)
        obtain ⟨m, rfl⟩ := Nat.exists_eq_add_one_of_ne_zero (by omega : m ≠ 0)
        have hskip := skipSpace_length u
        have hi := hitems (skipSpace u) n m (by omega) (by omega) (by omega)
        have hm := hmembers (skipSpace u) n m (by omega) (by omega) (by omega)
        rw [scanOnce, scanOnce]
        generalize skipSpace u = s at hi hm ⊢
        split
        · rfl
        split
        · split
          · rfl
          · rw [hm]
        split
        · split
          · rfl
          · rw [hi]
        · rfl
    -- an element or a member takes something, so what follows it is shorter
    refine ⟨honce, fun t n m ht hn hm => ?_, fun t n m ht hn hm => ?_⟩
    · obtain ⟨n, rfl⟩ := Nat.exists_eq_add_one_of_ne_zero (by omega : n ≠ 0)
      obtain ⟨m, rfl⟩ := Nat.exists_eq_add_one_of_ne_zero (by omega : m ≠ 0)
      rw [scanItems, scanItems, honce t n m ht (by omega) (by omega)]
      cases hv : scanOnce d m t with
      | error e => rfl
      | ok p =>
        have hp : p.2.length < t.length := (scan_takes m).1 _ _ hv
        dsimp only
        split
        · rfl
        · next w hw =>
          have hw' := length_of_skipSpace hw
          have hskip := skipSpace_length w
          rw [hitems (skipSpace w) n m (by omega) (by omega) (by omega)]
        · rfl
    · obtain ⟨n, rfl⟩ := Nat.exists_eq_add_one_of_ne_zero (by omega : n ≠ 0)
      obtain ⟨m, rfl⟩ := Nat.exists_eq_add_one_of_ne_zero (by omega : m ≠ 0)
      unfold scanMembers
      split
      · next u =>
        cases hk : scanString (34 :: u) u with
        | error e => rfl
        | ok p =>
          have hp : p.2.length < u.length := scanString_takes _ hk
          simp only [List.length_cons] at ht hn hm
          dsimp only
          split
          · next w hw =>
            have hw' := length_of_skipSpace hw
            have hskip := skipSpace_length w
            rw [honce (skipSpace w) n m (by omega) (by omega) (by omega)]
            cases hv : scanOnce d m (skipSpace w) with
            | error e => rfl
            | ok q =>
              have hq : q.2.length < (skipSpace w).length := (scan_takes m).1 _ _ hv
              dsimp only
              split
              · rfl
              · next y hy =>
                have hy' := length_of_skipSpace hy
                have hskip' := skipSpace_length y
                rw [hmembers (skipSpace y) n m (by omega) (by omega) (by omega)]
              · rfl
          · rfl
      · rfl

/-! ## The text that is left -/

/-- After a string whose opening quote has been read. -/
def stringRest (start t : Text) : Except LoadsError Text := (scanString start t).map Prod.snd

/-- After a number. -/
def numberRest (d : Decoder) (t : Text) : Except LoadsError Text := (scanNumber d t).map Prod.snd

/-- After a value. -/
def valueRest (d : Decoder) (t : Text) : Except LoadsError Text :=
  (scanOnce d (2 * t.length) t).map Prod.snd

/-- After the elements of an array and its bracket. -/
def itemsRest (d : Decoder) (t : Text) : Except LoadsError Text :=
  (scanItems d (2 * t.length + 1) t).map Prod.snd

/-- After the members of an object and its brace. -/
def membersRest (d : Decoder) (t : Text) : Except LoadsError Text :=
  (scanMembers d (2 * t.length + 1) t).map Prod.snd

/-- Every list of pairs makes a dict. -/
def Decoder.IsTotal (d : Decoder) : Prop := ∀ kvs, ∃ dict, d.pairs kvs = some dict

/-- Two maps over a result are one. -/
theorem map_map {ε α β γ : Type} (f : α → β) (g : β → γ) (x : Except ε α) :
    (x.map f).map g = x.map (g ∘ f) := by
  cases x <;> rfl

/-- A total hook fails no dict, so the rest does not depend on it. -/
theorem dictOf_map (hd : d.IsTotal) (kvs : List (Text × Json)) :
    ((dictOf d kvs).map fun j => (j, u)).map Prod.snd = .ok u := by
  obtain ⟨dict, hdict⟩ := hd kvs
  rw [dictOf, hdict]
  rfl

/-! ### Strings -/

/-- What is pushed onto a string leaves the rest. -/
theorem push_map (c : ℕ) (s : Scan Text) : (Json.push c s).map Prod.snd = s.map Prod.snd := by
  cases s <;> rfl

/-- A string without an end is not terminated. -/
@[simp] theorem stringRest_nil : stringRest start [] = failAt .unterminatedString start := by
  rw [stringRest, scanString]
  rfl

/-- The quote ends the string. -/
@[simp] theorem stringRest_quote : stringRest start (34 :: t) = .ok t := by
  rw [stringRest, scanString.eq_def]
  rfl

/-- A backslash at the end leaves the string open. -/
theorem stringRest_slash : stringRest start [92] = failAt .unterminatedString start := by
  rw [stringRest, scanString.eq_def]
  rfl

/-- A plain character is passed, unless it is a control character. -/
theorem stringRest_plain {c : ℕ} (hquote : c ≠ 34) (hslash : c ≠ 92) :
    stringRest start (c :: t) = if c < 32 then failAt .invalidControl (c :: t) else
      stringRest start t := by
  rw [stringRest, scanString.eq_def]
  simp only [hquote, hslash, if_false]
  split
  · rfl
  · exact push_map c _

/-- An escape is passed where it is known. -/
theorem stringRest_escape {e : ℕ} (he : e ≠ 117) :
    stringRest start (92 :: e :: t) =
      match simpleEscape e with
      | some _ => stringRest start t
      | none => failAt .invalidEscape (92 :: e :: t) := by
  rw [stringRest, scanString.eq_def]
  simp only [he, if_false]
  cases simpleEscape e with
  | none => rfl
  | some x => exact push_map x _

/-- A `\u` with too little after it is an error, at the `u`. -/
theorem stringRest_short (h : t.length ≤ 4) :
    stringRest start (92 :: 117 :: t) = failAt .invalidUnicodeEscape (117 :: t) := by
  rw [stringRest, scanString.eq_def]
  simp only [if_true]
  match t, h with
  | [], _ | [_], _ | [_, _], _ | [_, _, _], _ => rfl
  | [a, b, c, e], _ => rfl
  | _ :: _ :: _ :: _ :: _ :: _, h =>
    simp only [List.length_cons] at h
    omega

/-- A pair of surrogates leaves what its two escapes would leave one by one. -/
theorem stringRest_unicode {a b c e : ℕ} (ht : t ≠ []) :
    stringRest start (92 :: 117 :: a :: b :: c :: e :: t) =
      match hexValue4 a b c e with
      | some _ => stringRest start t
      | none => failAt .invalidUnicodeEscape (117 :: a :: b :: c :: e :: t) := by
  -- an escape that is no high surrogate takes no second one
  have hone :
      ∀ (a b c e : ℕ) (v : Text), v ≠ [] →
        (∀ x, hexValue4 a b c e = some x → ¬(0xD800 ≤ x ∧ x < 0xDC00)) →
        stringRest start (92 :: 117 :: a :: b :: c :: e :: v) = match hexValue4 a b c e with
        | some _ => stringRest start v
        | none => failAt .invalidUnicodeEscape (117 :: a :: b :: c :: e :: v) := by
    intro a b c e v hv hlow
    rw [stringRest, scanString.eq_def]
    simp only [if_true, if_neg hv]
    cases hx : hexValue4 a b c e with
    | none => rfl
    | some x =>
      dsimp only
      rw [if_neg (hlow x hx)]
      exact push_map x _
  cases hx : hexValue4 a b c e with
  | none => rw [hone a b c e t ht (by simp [hx]), hx]
  | some x =>
    by_cases hhigh : 0xD800 ≤ x ∧ x < 0xDC00
    · rw [stringRest, scanString.eq_def]
      simp only [if_true, if_neg ht, hx, if_pos hhigh]
      -- a high surrogate looks at the escape after it, which is read on its own or as the second half
      cases hlow : lowSurrogate t with
      | error error =>
        unfold lowSurrogate at hlow
        split at hlow
        · split at hlow
          · next p q a b c e v hescape =>
            obtain ⟨rfl, rfl, hv⟩ := hescape
            split at hlow
            · next hnone =>
              rw [hone a b c e v hv (by simp [hnone]), hnone, ← Except.error.inj hlow]
              rfl
            · cases hlow
          · cases hlow
        · cases hlow
      | ok low =>
        cases low with
        | none => exact push_map x _
        | some y =>
          have hbounds := hlow
          unfold lowSurrogate at hlow
          split at hlow
          · next p q a b c e v =>
            split at hlow
            · next hescape =>
              obtain ⟨rfl, rfl, hv⟩ := hescape
              split at hlow
              · cases hlow
              · next z hz =>
                have hsome := Except.ok.inj hlow
                split at hsome
                · next hbound =>
                  have hnot : ∀ x, hexValue4 a b c e = some x → ¬(0xD800 ≤ x ∧ x < 0xDC00) := by
                    intro x hx
                    rw [hz] at hx
                    have := Option.some.inj hx
                    omega
                  rw [hone a b c e v hv hnot, hz]
                  exact push_map _ _
                · cases hsome
            · cases hlow
          · cases hlow
    · rw [hone a b c e t ht (by rintro y hy; rw [hx] at hy; exact Option.some.inj hy ▸ hhigh), hx]

/-! ### Values -/

/-- No value in no text. -/
theorem valueRest_nil : valueRest d [] = failAt .expectingValue [] := rfl

/-- Enough fuel is as good as any. -/
theorem valueRest_fuel (hn : 2 * t.length ≤ n) : (scanOnce d n t).map Prod.snd = valueRest d t := by
  rw [valueRest, (scan_fuel t.length).1 t n (2 * t.length) le_rfl hn le_rfl]

/-- Any fuel above the need of the text reads the elements alike. -/
theorem itemsRest_fuel (hn : 2 * t.length < n) : (scanItems d n t).map Prod.snd = itemsRest d t := by
  rw [itemsRest, (scan_fuel t.length).2.1 t n (2 * t.length + 1) le_rfl hn (Nat.lt_succ_self _)]

/-- Any fuel above the need of the text reads the members alike. -/
theorem membersRest_fuel (hn : 2 * t.length < n) :
    (scanMembers d n t).map Prod.snd = membersRest d t := by
  rw [membersRest, (scan_fuel t.length).2.2 t n (2 * t.length + 1) le_rfl hn (Nat.lt_succ_self _)]

/-- A quote begins a string. -/
theorem valueRest_string : valueRest d (34 :: u) = stringRest (34 :: u) u := by
  show (((scanString (34 :: u) u).map fun p => (str p.1, p.2)).map Prod.snd) = _
  rw [map_map]
  rfl

/-- A brace that is closed at once is an object. -/
theorem valueRest_object_empty (hd : d.IsTotal) (h : skipSpace u = 125 :: t) :
    valueRest d (123 :: u) = .ok t := by
  show (scanOnce d (2 * u.length + 1 + 1) (123 :: u)).map Prod.snd = _
  rw [scanOnce, if_neg (by decide), if_pos rfl, h]
  exact dictOf_map hd []

/-- Another brace begins members. -/
theorem valueRest_object (hd : d.IsTotal) (h : ∀ v, skipSpace u ≠ 125 :: v) :
    valueRest d (123 :: u) = membersRest d (skipSpace u) := by
  have hlength := skipSpace_length u
  have hfuel := @membersRest_fuel d (skipSpace u) (2 * u.length + 1) (by omega)
  show (scanOnce d (2 * u.length + 1 + 1) (123 :: u)).map Prod.snd = _
  rw [scanOnce, if_neg (by decide), if_pos rfl, ← hfuel]
  split
  · next v hv => exact absurd hv (h v)
  · cases scanMembers d (2 * u.length + 1) (skipSpace u) with
    | error e => rfl
    | ok p => exact dictOf_map hd p.1

/-- A bracket that is closed at once is an array. -/
theorem valueRest_array_empty (h : skipSpace u = 93 :: t) : valueRest d (91 :: u) = .ok t := by
  show (scanOnce d (2 * u.length + 1 + 1) (91 :: u)).map Prod.snd = _
  rw [scanOnce, if_neg (by decide), if_neg (by decide), if_pos rfl, h]
  rfl

/-- Another bracket begins elements. -/
theorem valueRest_array (h : ∀ v, skipSpace u ≠ 93 :: v) :
    valueRest d (91 :: u) = itemsRest d (skipSpace u) := by
  have hlength := skipSpace_length u
  have hfuel := @itemsRest_fuel d (skipSpace u) (2 * u.length + 1) (by omega)
  show (scanOnce d (2 * u.length + 1 + 1) (91 :: u)).map Prod.snd = _
  rw [scanOnce, if_neg (by decide), if_neg (by decide), if_pos rfl, ← hfuel]
  split
  · next v hv => exact absurd hv (h v)
  · cases scanItems d (2 * u.length + 1) (skipSpace u) <;> rfl

/-- What begins otherwise is a constant or a number. -/
theorem valueRest_other {c : ℕ} (hquote : c ≠ 34) (hbrace : c ≠ 123) (hbracket : c ≠ 91) :
    valueRest d (c :: u) =
      match scanConstant (c :: u) with
      | some p => .ok p.2
      | none => numberRest d (c :: u) := by
  show (scanOnce d (2 * u.length + 1 + 1) (c :: u)).map Prod.snd = _
  rw [scanOnce, if_neg hquote, if_neg hbrace, if_neg hbracket]
  cases scanConstant (c :: u) <;> rfl

/-! ### Elements -/

/-- The error of an element is that of the array. -/
theorem itemsRest_error {e : LoadsError} (h : valueRest d t = .error e) :
    itemsRest d t = .error e := by
  rw [valueRest] at h
  rw [itemsRest, scanItems]
  cases hv : scanOnce d (2 * t.length) t with
  | error e' =>
    rw [hv] at h
    exact h
  | ok p =>
    rw [hv] at h
    cases h

/-- The scan of a value, from what is left after it. -/
theorem scanOnce_of_valueRest (hn : 2 * t.length ≤ n) (h : valueRest d t = .ok u) :
    ∃ v, scanOnce d n t = .ok (v, u) ∧ u.length < t.length := by
  rw [← valueRest_fuel hn] at h
  obtain ⟨p, hp, rfl⟩ := map_ok_iff.mp h
  exact ⟨p.1, hp, (scan_takes n).1 _ _ hp⟩

/-- A bracket after an element ends the array. -/
theorem itemsRest_last {w : Text} (h : valueRest d t = .ok u) (hu : skipSpace u = 93 :: w) :
    itemsRest d t = .ok w := by
  obtain ⟨v, hv, -⟩ := scanOnce_of_valueRest le_rfl h
  rw [itemsRest, scanItems, hv]
  dsimp only
  rw [hu]
  rfl

/-- A comma after an element begins another. -/
theorem itemsRest_next {w : Text} (h : valueRest d t = .ok u) (hu : skipSpace u = 44 :: w) :
    itemsRest d t = itemsRest d (skipSpace w) := by
  obtain ⟨v, hv, hlt⟩ := scanOnce_of_valueRest le_rfl h
  have hw := length_of_skipSpace hu
  have hlength := skipSpace_length w
  rw [itemsRest, scanItems, hv, ← @itemsRest_fuel d (skipSpace w) (2 * t.length) (by omega)]
  dsimp only
  rw [hu]
  exact map_map _ _ _

/-- Anything else after an element is an error. -/
theorem itemsRest_comma (h : valueRest d t = .ok u) (hlast : ∀ w, skipSpace u ≠ 93 :: w)
    (hnext : ∀ w, skipSpace u ≠ 44 :: w) : itemsRest d t = failAt .expectingComma (skipSpace u) := by
  obtain ⟨v, hv, -⟩ := scanOnce_of_valueRest le_rfl h
  rw [itemsRest, scanItems, hv]
  dsimp only
  split
  · next hw => exact absurd hw (hlast _)
  · next hw => exact absurd hw (hnext _)
  · rfl

/-! ### Members -/

/-- The error of a key is that of the object. -/
theorem membersRest_key_error {e : LoadsError} (h : stringRest (34 :: u) u = .error e) :
    membersRest d (34 :: u) = .error e := by
  rw [stringRest] at h
  rw [membersRest, scanMembers]
  cases hk : scanString (34 :: u) u with
  | error e' =>
    rw [hk] at h
    exact h
  | ok p =>
    rw [hk] at h
    cases h

/-- Where a string has a rest, the scanner reads one. -/
theorem scanString_of_stringRest {w : Text} (h : stringRest start t = .ok w) :
    ∃ k, scanString start t = .ok (k, w) ∧ w.length < t.length := by
  obtain ⟨p, hp, rfl⟩ := map_ok_iff.mp h
  exact ⟨p.1, hp, scanString_takes _ hp⟩

section

variable {v w x y : Text}

/-- A key without a colon is an error. -/
theorem membersRest_colon (hk : stringRest (34 :: u) u = .ok v) (hv : ∀ w, skipSpace v ≠ 58 :: w) :
    membersRest d (34 :: u) = failAt .expectingColon (skipSpace v) := by
  obtain ⟨k, hk, -⟩ := scanString_of_stringRest hk
  rw [membersRest, scanMembers, hk]
  dsimp only
  split
  · next hw => exact absurd hw (hv _)
  · rfl

/-- The error of a value is that of the object. -/
theorem membersRest_value_error {e : LoadsError} (hk : stringRest (34 :: u) u = .ok v)
    (hv : skipSpace v = 58 :: w) (h : valueRest d (skipSpace w) = .error e) :
    membersRest d (34 :: u) = .error e := by
  obtain ⟨k, hk, hlt⟩ := scanString_of_stringRest hk
  have hw := length_of_skipSpace hv
  have hlength := skipSpace_length w
  rw [← @valueRest_fuel d (skipSpace w) (2 * (u.length + 1)) (by omega)] at h
  rw [membersRest, scanMembers, hk]
  simp only [hv, List.length_cons]
  cases hj : scanOnce d (2 * (u.length + 1)) (skipSpace w) with
  | error e' =>
    rw [hj] at h
    exact h
  | ok p =>
    rw [hj] at h
    cases h

/-- A brace after a value ends the object. -/
theorem membersRest_last (hk : stringRest (34 :: u) u = .ok v) (hv : skipSpace v = 58 :: w)
    (h : valueRest d (skipSpace w) = .ok x) (hx : skipSpace x = 125 :: y) :
    membersRest d (34 :: u) = .ok y := by
  obtain ⟨k, hk, hlt⟩ := scanString_of_stringRest hk
  have hw := length_of_skipSpace hv
  have hlength := skipSpace_length w
  obtain ⟨j, hj, -⟩ := @scanOnce_of_valueRest d (skipSpace w) x (2 * (u.length + 1)) (by omega) h
  rw [membersRest, scanMembers, hk]
  simp only [hv, List.length_cons, hj, hx]
  rfl

/-- A comma after a value begins another member. -/
theorem membersRest_next (hk : stringRest (34 :: u) u = .ok v) (hv : skipSpace v = 58 :: w)
    (h : valueRest d (skipSpace w) = .ok x) (hx : skipSpace x = 44 :: y) :
    membersRest d (34 :: u) = membersRest d (skipSpace y) := by
  obtain ⟨k, hk, hlt⟩ := scanString_of_stringRest hk
  have hw := length_of_skipSpace hv
  have hlength := skipSpace_length w
  obtain ⟨j, hj, hlt'⟩ := @scanOnce_of_valueRest d (skipSpace w) x (2 * (u.length + 1)) (by omega) h
  have hy := length_of_skipSpace hx
  have hlength' := skipSpace_length y
  rw [membersRest, scanMembers, hk,
    ← @membersRest_fuel d (skipSpace y) (2 * (u.length + 1)) (by omega)]
  simp only [hv, List.length_cons, hj, hx]
  exact map_map _ _ _

/-- Anything else after a value is an error. -/
theorem membersRest_comma (hk : stringRest (34 :: u) u = .ok v) (hv : skipSpace v = 58 :: w)
    (h : valueRest d (skipSpace w) = .ok x) (hlast : ∀ y, skipSpace x ≠ 125 :: y)
    (hnext : ∀ y, skipSpace x ≠ 44 :: y) :
    membersRest d (34 :: u) = failAt .expectingComma (skipSpace x) := by
  obtain ⟨k, hk, hlt⟩ := scanString_of_stringRest hk
  have hw := length_of_skipSpace hv
  have hlength := skipSpace_length w
  obtain ⟨j, hj, -⟩ := @scanOnce_of_valueRest d (skipSpace w) x (2 * (u.length + 1)) (by omega) h
  rw [membersRest, scanMembers, hk]
  simp only [hv, List.length_cons, hj]
  rfl

end

/-- A member begins with a quote. -/
theorem membersRest_other (h : ∀ u, t ≠ 34 :: u) :
    membersRest d t = failAt .expectingPropertyName t := by
  unfold membersRest scanMembers
  split
  · exact absurd rfl (h _)
  · rfl

/-! ### Parts -/

/-- An array or an object. -/
inductive Bracket : Type where
  | square | curly

/-- The opening bracket. -/
def Bracket.opening : Bracket → ℕ
  | .square => 91
  | .curly => 123

/-- The closing bracket. -/
def Bracket.closing : Bracket → ℕ
  | .square => 93
  | .curly => 125

/-- The parts of a JSON text: a value, a key with its value, and what stands between
brackets with the closing one. -/
inductive Part : Type where
  | value | entry
  | inside (b : Bracket)

/-- What stands between brackets. -/
def Bracket.element : Bracket → Part
  | .square => .value
  | .curly => .entry

/-- After a key and its value. -/
def entryRest (d : Decoder) (t : Text) : Except LoadsError Text :=
  match t with
  | 34 :: u =>
    match stringRest (34 :: u) u with
    | .error e => .error e
    | .ok v =>
      match skipSpace v with
      | 58 :: w => valueRest d (skipSpace w)
      | w => failAt .expectingColon w
  | t => failAt .expectingPropertyName t

/-- The text that is left after a part. -/
def partRest (d : Decoder) : Part → Text → Except LoadsError Text
  | .value, t => valueRest d t
  | .entry, t => entryRest d t
  | .inside .square, t => itemsRest d t
  | .inside .curly, t => membersRest d t

section

variable {e : LoadsError} {v w : Text} {b : Bracket}

/-- The error of a key is that of its member. -/
theorem entryRest_key_error (h : stringRest (34 :: u) u = .error e) :
    entryRest d (34 :: u) = .error e := by
  simp only [entryRest, h]

/-- A key needs a colon after it. -/
theorem entryRest_colon (h : stringRest (34 :: u) u = .ok v) (hv : ∀ w, skipSpace v ≠ 58 :: w) :
    entryRest d (34 :: u) = failAt .expectingColon (skipSpace v) := by
  simp only [entryRest, h]

/-- The rest of a member is the rest of its value. -/
theorem entryRest_value (h : stringRest (34 :: u) u = .ok v) (hv : skipSpace v = 58 :: w) :
    entryRest d (34 :: u) = valueRest d (skipSpace w) := by
  simp only [entryRest, h, hv]

/-- A member begins with a quote. -/
theorem entryRest_other (h : ∀ u, t ≠ 34 :: u) : entryRest d t = failAt .expectingPropertyName t := by
  unfold entryRest
  split
  · exact absurd rfl (h _)
  · rfl

/-- The ways to scan a key and its value. -/
theorem entry_cases (t : Text) :
    (∀ u, t ≠ 34 :: u) ∨ (∃ u e, t = 34 :: u ∧ stringRest (34 :: u) u = .error e) ∨
      (∃ u v, t = 34 :: u ∧ stringRest (34 :: u) u = .ok v ∧ ∀ w, skipSpace v ≠ 58 :: w) ∨
      ∃ u v w, t = 34 :: u ∧ stringRest (34 :: u) u = .ok v ∧ skipSpace v = 58 :: w := by
  by_cases ht : ∃ u, t = 34 :: u
  · obtain ⟨u, rfl⟩ := ht
    cases hk : stringRest (34 :: u) u with
    | error e => exact .inr (.inl ⟨u, e, rfl, hk⟩)
    | ok v =>
      by_cases hv : ∃ w, skipSpace v = 58 :: w
      · obtain ⟨w, hw⟩ := hv
        exact .inr (.inr (.inr ⟨u, v, w, rfl, hk, hw⟩))
      · exact .inr (.inr (.inl ⟨u, v, rfl, hk, fun w hw => hv ⟨w, hw⟩⟩))
  · exact .inl fun u hu => ht ⟨u, hu⟩

/-- The error of an element or a member is that of what it is in. -/
theorem partRest_error (h : partRest d b.element t = .error e) :
    partRest d (.inside b) t = .error e := by
  cases b with
  | square => exact itemsRest_error h
  | curly =>
    simp only [partRest, Bracket.element] at h ⊢
    rcases entry_cases t with ht | ⟨u, e', rfl, hk⟩ | ⟨u, v, rfl, hk, hv⟩ | ⟨u, v, w, rfl, hk, hv⟩
    · rw [entryRest_other ht] at h
      rw [membersRest_other ht, h]
    · rw [entryRest_key_error hk] at h
      rw [membersRest_key_error hk, h]
    · rw [entryRest_colon hk hv] at h
      rw [membersRest_colon hk hv, h]
    · rw [entryRest_value hk hv] at h
      exact membersRest_value_error hk hv h

/-- An entry that is read has a key, a colon and a value. -/
theorem entryRest_ok {x : Text} (h : entryRest d t = .ok x) :
    ∃ u v w, t = 34 :: u ∧ stringRest (34 :: u) u = .ok v ∧ skipSpace v = 58 :: w ∧
      valueRest d (skipSpace w) = .ok x := by
  rcases entry_cases t with ht | ⟨u, e', rfl, hk⟩ | ⟨u, v, rfl, hk, hv⟩ | ⟨u, v, w, rfl, hk, hv⟩
  · rw [entryRest_other ht] at h
    cases h
  · rw [entryRest_key_error hk] at h
    cases h
  · rw [entryRest_colon hk hv] at h
    cases h
  · rw [entryRest_value hk hv] at h
    exact ⟨u, v, w, rfl, hk, hv, h⟩

/-- The closing bracket ends an array or an object. -/
theorem partRest_last (h : partRest d b.element t = .ok u) (hu : skipSpace u = b.closing :: w) :
    partRest d (.inside b) t = .ok w := by
  cases b with
  | square => exact itemsRest_last h hu
  | curly =>
    obtain ⟨u', v, x, rfl, hk, hv, hx⟩ := entryRest_ok h
    exact membersRest_last hk hv hx hu

/-- A comma begins another element or member. -/
theorem partRest_next (h : partRest d b.element t = .ok u) (hu : skipSpace u = 44 :: w) :
    partRest d (.inside b) t = partRest d (.inside b) (skipSpace w) := by
  cases b with
  | square => exact itemsRest_next h hu
  | curly =>
    obtain ⟨u', v, x, rfl, hk, hv, hx⟩ := entryRest_ok h
    exact membersRest_next hk hv hx hu

/-- After an element or a member there is a comma or the closing bracket. -/
theorem partRest_comma (h : partRest d b.element t = .ok u)
    (hlast : ∀ w, skipSpace u ≠ b.closing :: w) (hnext : ∀ w, skipSpace u ≠ 44 :: w) :
    partRest d (.inside b) t = failAt .expectingComma (skipSpace u) := by
  cases b with
  | square => exact itemsRest_comma h hlast hnext
  | curly =>
    obtain ⟨u', v, x, rfl, hk, hv, hx⟩ := entryRest_ok h
    exact membersRest_comma hk hv hx hlast hnext

/-- Brackets of either kind may be closed at once. -/
theorem valueRest_empty (hd : d.IsTotal) (h : skipSpace u = b.closing :: t) :
    valueRest d (b.opening :: u) = .ok t := by
  cases b with
  | square => exact valueRest_array_empty h
  | curly => exact valueRest_object_empty hd h

/-- Between brackets that are not closed at once there is an element or a member. -/
theorem valueRest_opening (hd : d.IsTotal) (h : ∀ v, skipSpace u ≠ b.closing :: v) :
    valueRest d (b.opening :: u) = partRest d (.inside b) (skipSpace u) := by
  cases b with
  | square => exact valueRest_array h
  | curly => exact valueRest_object hd h

end

/-- Whether `json.loads` returns, and its error. -/
theorem loads_rest (h : t.head? ≠ some 0xFEFF) :
    (loads d t).map (fun _ => ()) =
      match valueRest d (skipSpace t) with
      | .error e => .error e
      | .ok u => if skipSpace u = [] then .ok () else failAt .extraData (skipSpace u) := by
  have hlength := skipSpace_length t
  rw [loads, if_neg h, ← @valueRest_fuel d (skipSpace t) (2 * t.length) (by omega)]
  cases scanOnce d (2 * t.length) (skipSpace t) with
  | error e => rfl
  | ok p =>
    have hrest : (Except.ok p : Scan Json).map Prod.snd = .ok p.2 := rfl
    rw [hrest]
    dsimp only
    split <;> rfl

end Json

end RunpodJobrunner
