import RunpodJobrunner.CanonicalReadBack

/-!
# What canonical JSON loses

Canonical JSON gives back a value that is equal exactly when every decimal of it fits
into 28 significant digits and every integer can be converted. Between such values its
bytes, and so the bundle hash over them, tell a difference.
-/

namespace RunpodJobrunner

open Json

/-- What `compute_bundle_hash` hashes the canonical JSON of. -/
def hashedRecord (spec manifest : List (Text × Json)) : Json :=
  .obj [(txt "input_manifest", .obj manifest),
    (txt "job_spec", .obj (spec.filter fun r => decide (r.1 ≠ txt "bundle_hash")))]

namespace Json

/-- The value is written, and what is read back is equal to it. -/
def RoundTrips (v : Json) : Prop :=
  ∃ data u, canonicalJson v = some data ∧ loadsDecimal data = some u ∧ same false v u = true

/-- Python converts every integer, and every decimal keeps its value when normalised. -/
def IsExact (v : Json) : Prop := Every (fun u => IsShort u ∧ IsPrecise u) v

end Json

/-- The bundle returns the records it is made of. -/
def ReturnsRecords (spec manifest : List (Text × Json)) : Prop :=
  ∃ b s m, JobBundle.ofRecords spec manifest = some b ∧ b.jobSpec = some s ∧
    b.inputManifest = some m ∧ same false (.obj spec) s = true ∧ same false (.obj manifest) m = true

section

variable {v w : Json} {spec manifest spec' manifest' : List (Text × Json)}

theorem storable_of_canonical (hv : Every IsCanonical v) : Storable literalDecoder v := by
  refine storable_of_every (fun u hs hu => ?_) v hv
  cases u with
  | arr vs | obj kvs => cases hs
  | float x => cases hu
  | str t =>
    intro c hc
    have := hu c hc
    rw [IsScalarValue] at this
    omega
  | null | bool b | int n | decimal d => trivial

/-- What is read back is equal when every decimal is precise. -/
theorem same_reread (hv : Every IsCanonical v) :
    same false v (mapScalars reread v.sortKeys) = true ↔ Every IsPrecise v := by
  rw [← same_sortKeys_left v _ (storable_of_canonical hv), ← every_sortKeys v]
  exact same_mapScalars (fun _ => trivial) (fun _ hs hu => same_scalar hs hu) v.sortKeys
    ((every_sortKeys v).mpr hv)

theorem roundTrips_iff (hv : Every IsCanonical v) : RoundTrips v ↔ IsExact v := by
  rw [IsExact, every_and, ← canonicalJson_isSome hv, ← same_reread hv, Option.isSome_iff_exists]
  constructor
  · rintro ⟨data, u, hdata, hu, hsame⟩
    obtain rfl := Option.some.inj (hu.symm.trans (loadsDecimal_canonicalJson hv hdata))
    exact ⟨⟨data, hdata⟩, hsame⟩
  · rintro ⟨⟨data, hdata⟩, hsame⟩
    exact ⟨data, _, hdata, loadsDecimal_canonicalJson hv hdata, hsame⟩

/-- Exact values with the same canonical bytes are equal. -/
theorem same_of_canonicalJson_eq (hv : Every IsCanonical v) (hw : Every IsCanonical w)
    (hev : IsExact v) (hew : IsExact w) (h : canonicalJson v = canonicalJson w) :
    same false v w = true := by
  have hprecise : ∀ {u}, Every IsCanonical u → IsExact u →
      Every (fun u => IsCanonical u ∧ IsPrecise u) u.sortKeys := by
    intro u hu heu
    rw [IsExact, every_and] at heu
    exact (every_sortKeys u).mpr ((every_and u).mpr ⟨hu, heu.2⟩)
  obtain ⟨data, u, hdata, hu, -⟩ := (roundTrips_iff hv).mpr hev
  have hread := (loadsDecimal_canonicalJson hv hdata).symm.trans
    (loadsDecimal_canonicalJson hw (h ▸ hdata))
  have hsame : same false v.sortKeys w.sortKeys = true :=
    same_of_mapScalars_eq keepsStrings_reread (fun _ _ hs hs' => same_of_reread_eq hs hs') _ _
      (hprecise hv hev) (hprecise hw hew) (Option.some.inj hread)
  rwa [same_sortKeys_left v _ (storable_of_canonical hv),
    same_sortKeys_right v w (storable_of_canonical hw)] at hsame

theorem every_hashedRecord {p : Json → Prop} (hkeys : p (.str (txt "input_manifest")) ∧
    p (.str (txt "job_spec"))) (hspec : Every p (.obj spec)) (hmanifest : Every p (.obj manifest)) :
    Every p (hashedRecord spec manifest) := by
  have hfilter : Every p (.obj (spec.filter fun r => decide (r.1 ≠ txt "bundle_hash"))) := by
    obtain ⟨hnodup, hmembers⟩ := every_obj.mp hspec
    exact every_obj.mpr ⟨hnodup.sublist (List.filter_sublist.map _),
      fun r hr => hmembers r (List.mem_of_mem_filter hr)⟩
  have hdistinct : [txt "input_manifest", txt "job_spec"].Nodup := by decide
  rw [hashedRecord, every_obj]
  refine ⟨hdistinct, fun r hr => ?_⟩
  rcases List.mem_pair.mp hr with rfl | rfl
  · exact ⟨hkeys.1, hmanifest⟩
  · exact ⟨hkeys.2, hfilter⟩

theorem isCanonical_ascii {t : Text} (h : ∀ c ∈ t, c < 128) : IsCanonical (.str t) :=
  fun c hc => .inl (by have := h c hc; omega)

/-- Exact bundles whose hashes are over the same bytes have the same records, the hash
that a job spec declares of itself apart. -/
theorem same_of_hashedRecord_eq (hspec : Every IsCanonical (.obj spec))
    (hmanifest : Every IsCanonical (.obj manifest)) (hspec' : Every IsCanonical (.obj spec'))
    (hmanifest' : Every IsCanonical (.obj manifest')) (hes : IsExact (.obj spec))
    (hem : IsExact (.obj manifest)) (hes' : IsExact (.obj spec')) (hem' : IsExact (.obj manifest'))
    (h : canonicalJson (hashedRecord spec manifest) = canonicalJson (hashedRecord spec' manifest')) :
    same false (.obj manifest) (.obj manifest') = true ∧
      same false (.obj (spec.filter fun r => decide (r.1 ≠ txt "bundle_hash")))
        (.obj (spec'.filter fun r => decide (r.1 ≠ txt "bundle_hash"))) = true := by
  have hkeys : IsCanonical (.str (txt "input_manifest")) ∧ IsCanonical (.str (txt "job_spec")) :=
    ⟨isCanonical_ascii (by decide), isCanonical_ascii (by decide)⟩
  have hsame := same_of_canonicalJson_eq (every_hashedRecord hkeys hspec hmanifest)
    (every_hashedRecord hkeys hspec' hmanifest')
    (every_hashedRecord ⟨⟨trivial, trivial⟩, trivial, trivial⟩ hes hem)
    (every_hashedRecord ⟨⟨trivial, trivial⟩, trivial, trivial⟩ hes' hem') h
  have hne : txt "input_manifest" ≠ txt "job_spec" := by decide
  simpa [hashedRecord, same, sameMembers, hne] using hsame

/-- A bundle returns its records when both round trip. -/
theorem returnsRecords_iff :
    ReturnsRecords spec manifest ↔ RoundTrips (.obj spec) ∧ RoundTrips (.obj manifest) := by
  constructor
  · rintro ⟨b, s, m, hb, hs, hm, hsame, hsame'⟩
    rw [JobBundle.ofRecords] at hb
    split at hb
    · next jobSpecJson inputManifestJson hspec hmanifest =>
      obtain rfl := Option.some.inj hb
      exact ⟨⟨_, s, hspec, hs, hsame⟩, _, m, hmanifest, hm, hsame'⟩
    · cases hb
  · rintro ⟨⟨data, s, hspec, hs, hsame⟩, data', m, hmanifest, hm, hsame'⟩
    exact ⟨⟨data, data'⟩, s, m, by rw [JobBundle.ofRecords, hspec, hmanifest], hs, hm, hsame, hsame'⟩

/-- **When canonical JSON loses nothing.** A value comes back, and a bundle returns its
records, exactly when they are exact; and exact values, exact bundles too, with the same
bytes are equal. -/
theorem canonical_json_exact (v : Json) (hv : Every IsCanonical v) :
    (RoundTrips v ↔ IsExact v) ∧
    (∀ w, Every IsCanonical w → IsExact v → IsExact w →
      canonicalJson v = canonicalJson w → same false v w = true) ∧
    ∀ spec manifest, Every IsCanonical (.obj spec) → Every IsCanonical (.obj manifest) →
      (ReturnsRecords spec manifest ↔ IsExact (.obj spec) ∧ IsExact (.obj manifest)) := by
  refine ⟨roundTrips_iff hv, ?_, ?_⟩
  · intro w hw hev hew h
    exact same_of_canonicalJson_eq hv hw hev hew h
  · intro spec manifest hspec hmanifest
    rw [returnsRecords_iff, roundTrips_iff hspec, roundTrips_iff hmanifest]

end

/-! ## Samples -/

/-- A record with a price of three digits. -/
def sampleRecord : List (Text × Json) :=
  [(txt "cost", .decimal (.finite false 150 (-2))),
    (txt "runs", .arr [.int 3, .bool true, .str [233]])]

/-- A decimal of 29 significant digits, next to one. -/
def longDecimal : Json := .decimal (.finite false 10000000000000000000000000001 (-28))

theorem canonical_json_exact_sample : RoundTrips (.obj sampleRecord) := by
  have hprice : defaultContext.Fits ⟨false, 150, -2⟩ := ⟨150, -2, by decide, rfl⟩
  have hcost : IsCanonical (.decimal (.finite false 150 (-2))) := by decide
  have hname : IsCanonical (.str [233]) := by decide
  have hruns : (natText 3).length ≤ maxStrDigits := by decide
  refine (canonical_json_exact (.obj sampleRecord)
    ⟨by decide, by decide, hcost, by decide, ⟨trivial, trivial, hname, trivial⟩, trivial⟩).1.mpr ?_
  exact ⟨by decide, ⟨trivial, trivial⟩, ⟨trivial, .inr hprice⟩, ⟨trivial, trivial⟩,
    ⟨⟨hruns, trivial⟩, ⟨trivial, trivial⟩, ⟨trivial, trivial⟩, trivial⟩, trivial⟩

/-- No coefficient of 28 digits has the value. -/
theorem longDecimal_not_fits :
    ¬defaultContext.Fits ⟨false, 10000000000000000000000000001, -28⟩ := by
  rintro ⟨c, e, hc, hvalue⟩
  have hc : c < 10 ^ 28 := hc
  rw [Number.magnitude] at hvalue
  by_cases he : -27 ≤ e
  · -- the coefficient would be a multiple of ten
    have hnat : 10000000000000000000000000001 = c * 10 ^ (e + 28).toNat := by
      have hshift : (c : ℚ) * 10 ^ (e + 28).toNat = (c * 10 ^ e) * 10 ^ (28 : ℤ) := by
        rw [mul_assoc, ← zpow_add₀ (by norm_num), ← zpow_natCast, Int.toNat_of_nonneg (by omega)]
      have hcast : ((c * 10 ^ (e + 28).toNat : ℕ) : ℚ) = (10000000000000000000000000001 : ℕ) := by
        rw [Nat.cast_mul, Nat.cast_pow, Nat.cast_ofNat, hshift, ← hvalue]
        norm_num
      exact_mod_cast hcast.symm
    obtain ⟨k, hk⟩ : ∃ k, (e + 28).toNat = k + 1 := ⟨(e + 27).toNat, by omega⟩
    rw [hk, pow_succ, ← mul_assoc] at hnat
    omega
  · -- or have more digits
    have hnat : c = 10000000000000000000000000001 * 10 ^ (-28 - e).toNat := by
      have hshift : (10000000000000000000000000001 : ℚ) * 10 ^ (-28 - e).toNat =
          (10000000000000000000000000001 * 10 ^ (-28 : ℤ)) * 10 ^ (-e) := by
        rw [mul_assoc, ← zpow_add₀ (by norm_num), ← zpow_natCast, Int.toNat_of_nonneg (by omega)]
        rfl
      have hcast : ((10000000000000000000000000001 * 10 ^ (-28 - e).toNat : ℕ) : ℚ) = c := by
        rw [Nat.cast_mul, Nat.cast_pow, Nat.cast_ofNat, Nat.cast_ofNat, hshift]
        rw [Nat.cast_ofNat] at hvalue
        rw [hvalue, mul_assoc, ← zpow_add₀ (by norm_num), add_neg_cancel, zpow_zero, mul_one]
      exact_mod_cast hcast.symm
    have hone := Nat.one_le_pow (-28 - e).toNat 10 (by norm_num)
    omega

/-- **A digit is lost.** The decimal and one are written as the same bytes. -/
theorem long_decimal_collides :
    Every IsCanonical longDecimal ∧ ¬RoundTrips longDecimal ∧
      canonicalJson longDecimal = canonicalJson (.int 1) ∧
      same false longDecimal (.int 1) = false := by
  have hs : longDecimal.IsScalar := trivial
  have hcanonical : Every IsCanonical longDecimal :=
    (every_scalar hs).mpr (by decide : IsCanonical longDecimal)
  have hnumber : longDecimal.number =
      some (Decimal.finite false 10000000000000000000000000001 (-28)).value := rfl
  refine ⟨hcanonical, ?_, by decide, ?_⟩
  · rw [roundTrips_iff hcanonical]
    intro hexact
    rcases ((every_scalar hs).mp hexact).2 with h0 | hfits
    · cases h0
    · exact longDecimal_not_fits hfits
  · rw [Bool.eq_false_iff, ne_eq, same_numbers hnumber (by rfl : number (.int 1) = some (1 : ℤ))]
    norm_num [Decimal.value]

end RunpodJobrunner
