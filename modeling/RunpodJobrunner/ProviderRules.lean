import Mathlib.Tactic.Linarith
import RunpodJobrunner.RunPodProvider

/-!
# Rules for the RunPod adapter

One rule for each thing a call of the adapter does, in the form the verification condition
`Keeps` needs it. Files are only ever added, so what was read once is read again
(`Reads.mono`); what was written without blanks around it is read as it is
(`reads_written`), the admitted rate included (`readsRate_written`).
-/

namespace RunpodJobrunner

open Json

namespace RunPod

variable {α : Type} {I : ProviderWorld → Prop} {Q : α → ProviderWorld → Prop}
  {E : ProviderFault → ProviderWorld → Prop} {w w' w'' : ProviderWorld}
  {operationId name text value : Text}

/-! ## Worlds -/

/-- Every file stays as it is. -/
def Extends (w w' : ProviderWorld) : Prop :=
  ∀ o n t, w.files o n = some t → w'.files o n = some t

/-- Nothing is asked of the API, and every file stays as it is. -/
structure Quiet (w w' : ProviderWorld) : Prop where
  requests : w'.requests = w.requests
  files : Extends w w'

theorem Extends.rfl : Extends w w := fun _ _ _ h => h

theorem Extends.trans (h : Extends w w') (h' : Extends w' w'') : Extends w w'' :=
  fun o n t hfile => h' o n t (h o n t hfile)

theorem Quiet.rfl : Quiet w w := ⟨Eq.refl _, .rfl⟩

theorem Quiet.trans (h : Quiet w w') (h' : Quiet w' w'') : Quiet w w'' :=
  ⟨h'.requests.trans h.requests, h.files.trans h'.files⟩

/-- Making a directory is quiet. -/
theorem quiet_withOperation : Quiet w (w.withOperation operationId) := by
  rw [ProviderWorld.withOperation]
  split
  · exact .rfl
  · exact ⟨rfl, .rfl⟩

/-- Writing a new file is quiet. -/
theorem quiet_withFile (h : w.files operationId name = none) :
    Quiet w (w.withFile operationId name text) := by
  refine ⟨rfl, ?_⟩
  intro o n t hfile
  have hother : ¬(o = operationId ∧ n = name) := by
    rintro ⟨rfl, rfl⟩
    rw [h] at hfile
    cases hfile
  exact (if_neg hother).trans hfile

/-- What a command does: it asks something of the API, or nothing. -/
theorem exec_cases {c : Command} {a : Answer c} (h : machine.exec w c a w') :
    Quiet w w' ∨ ∃ r b, w' = w.sent r b := by
  cases c with
  | request r => exact .inr ⟨r, _, h⟩
  | makeDirectory o =>
    rcases h with rfl | ⟨-, rfl⟩
    · exact .inl quiet_withOperation
    · exact .inl .rfl
  | createFile o n t =>
    change execute w (.createFile o n t) a w' at h
    rw [execute] at h
    split at h
    · obtain ⟨-, rfl⟩ := h
      exact .inl .rfl
    · next hnone =>
      rcases h with ⟨-, rfl⟩ | ⟨-, rfl | ⟨part, -, rfl⟩⟩
      · exact .inl (quiet_withFile hnone)
      · exact .inl .rfl
      · exact .inl (quiet_withFile hnone)
  | readFile | listDirectories =>
    obtain ⟨-, rfl⟩ := h
    exact .inl .rfl
  | tokenHex =>
    obtain ⟨-, -, rfl⟩ := h
    exact .inl .rfl

/-- And where the process dies inside it. -/
theorem die_cases {c : Command} (h : machine.die w c w') : Quiet w w' ∨ ∃ r b, w' = w.sent r b := by
  cases c with
  | request r =>
    rcases h with rfl | rfl
    · exact .inl .rfl
    · exact .inr ⟨r, none, rfl⟩
  | makeDirectory o =>
    rcases h with rfl | rfl
    · exact .inl .rfl
    · exact .inl quiet_withOperation
  | createFile o n t =>
    rcases h with rfl | ⟨hnone, part, -, rfl⟩
    · exact .inl .rfl
    · exact .inl (quiet_withFile hnone)
  | readFile | listDirectories | tokenHex =>
    obtain rfl : w' = w := h
    exact .inl .rfl

/-- What is only added: files, and what was asked. -/
structure Grows (w w' : ProviderWorld) : Prop where
  files : Extends w w'
  requests : w.requests <:+ w'.requests

theorem Grows.rfl : Grows w w := ⟨.rfl, List.suffix_refl _⟩

/-- A quiet step or a request lets the world grow. -/
theorem Grows.step (h : Grows w w') (hstep : Quiet w' w'' ∨ ∃ r b, w'' = w'.sent r b) :
    Grows w w'' := by
  rcases hstep with hquiet | ⟨r, b, rfl⟩
  · exact ⟨h.files.trans hquiet.files, hquiet.requests ▸ h.requests⟩
  · exact ⟨h.files, h.requests.trans (List.suffix_cons _ _)⟩

/-- Whatever is done, worlds grow. -/
theorem keeps_grows {ε β : Type} (process : Process Command Answer ε β) (w : ProviderWorld) :
    Keeps machine (Grows w) (fun _ => Grows w) (fun _ => Grows w) process w := by
  have honly : process.Only fun _ => True := by
    induction process with
    | done | raise => trivial
    | call c k ih => exact ⟨trivial, ih⟩
  apply honly.keeps
  · intro v c a v' _ hv hexec
    exact hv.step (exec_cases hexec)
  · intro v c v' _ hv hdie
    exact hv.step (die_cases hdie)
  · exact .rfl

/-- The world grows in every run. -/
theorem grows_of_runs {ε β : Type} {p : Process Command Answer ε β} {o : Outcome ε β}
    (h : Runs machine p w o w') : Grows w w' :=
  ((keeps_grows p w).sound h .rfl).1

/-! ## Reading -/

/-- What `_read_operation_text` returns. -/
def Reads (w : ProviderWorld) (operationId name value : Text) : Prop :=
  ∃ content, w.files operationId name = some content ∧ Decimal.strip content = value ∧ value ≠ []

/-- What `_read_maximum_rate` returns. -/
def ReadsRate (w : ProviderWorld) (operationId : Text) (rate : Decimal) : Prop :=
  ∃ content, w.files operationId rateFile = some content ∧ content.all (· < 128) = true ∧
    decimalText (txt "maximum") (Decimal.strip content) = .ok rate

/-- What is read stays what it is while files are only added. -/
theorem Reads.mono (h : Reads w operationId name value) (hextends : Extends w w') :
    Reads w' operationId name value := by
  obtain ⟨content, hfile, hvalue⟩ := h
  exact ⟨content, hextends _ _ _ hfile, hvalue⟩

/-- The rate that is read stays what it is while files are only added. -/
theorem ReadsRate.mono {rate : Decimal} (h : ReadsRate w operationId rate)
    (hextends : Extends w w') : ReadsRate w' operationId rate := by
  obtain ⟨content, hfile, hvalue⟩ := h
  exact ⟨content, hextends _ _ _ hfile, hvalue⟩

/-- One text is read of a file. -/
theorem Reads.unique {value' : Text} (h : Reads w operationId name value)
    (h' : Reads w operationId name value') : value = value' := by
  obtain ⟨content, hfile, rfl, -⟩ := h
  obtain ⟨content', hfile', rfl, -⟩ := h'
  rw [Option.some.inj (hfile.symm.trans hfile')]

/-- One rate is read of a file. -/
theorem ReadsRate.unique {rate rate' : Decimal} (h : ReadsRate w operationId rate)
    (h' : ReadsRate w operationId rate') : rate = rate' := by
  obtain ⟨content, hfile, -, hrate⟩ := h
  obtain ⟨content', hfile', -, hrate'⟩ := h'
  obtain rfl := Option.some.inj (hfile.symm.trans hfile')
  exact Except.ok.inj (hrate.symm.trans hrate')

/-- A text without blanks around it is read as it was written. -/
theorem reads_written (hne : value ≠ []) (htrim : Decimal.strip value = value)
    (h : w.files operationId name = some (value ++ [10])) : Reads w operationId name value := by
  refine ⟨_, h, ?_, hne⟩
  rw [Decimal.strip_append_space (by decide), htrim]

/-- A decimal above zero has no sign and a coefficient. -/
theorem sign_of_pos {neg : Bool} {coeff : ℕ} {exp : ℤ}
    (h : 0 < (Decimal.finite neg coeff exp).value) : neg = false ∧ 0 < coeff := by
  have hcoeff : 0 < coeff := by
    rcases Nat.eq_zero_or_pos coeff with rfl | hpos
    · simp [Decimal.value] at h
    · exact hpos
  refine ⟨?_, hcoeff⟩
  by_contra hneg
  rw [Bool.not_eq_false] at hneg
  subst hneg
  have hpow : (0 : ℚ) < 10 ^ exp := zpow_pos (by norm_num) exp
  have hmagnitude : (0 : ℚ) < coeff * 10 ^ exp := mul_pos (by exact_mod_cast hcoeff) hpow
  rw [Decimal.value, if_pos rfl, mul_assoc] at h
  linarith

/-- The admitted rate is read as the number it is. -/
theorem readsRate_written {key t : Text} {rate : Decimal} (hrate : decimalText key t = .ok rate)
    (h : w.files operationId rateFile = some (rate.formatF ++ [10])) :
    ∃ d, ReadsRate w operationId d ∧ d.value = rate.value := by
  rw [decimalText] at hrate
  cases hread : Decimal.ofText t with
  | none =>
    rw [hread] at hrate
    cases hrate
  | some d =>
    simp only [hread] at hrate
    split at hrate
    · next hpositive =>
      obtain rfl := Except.ok.inj hrate
      obtain ⟨hfinite, hvalue⟩ := hpositive
      cases d with
      | infinity | nan => cases hfinite
      | finite neg coeff exp =>
        obtain ⟨rfl, hcoeff⟩ := sign_of_pos hvalue
        have hformat : (Decimal.finite false coeff exp).formatF = Decimal.plainText coeff exp := by
          simp [Decimal.formatF, hcoeff.ne']
        have hplain := Decimal.plainText_plain coeff exp
        have hback := Decimal.ofText_plainText hcoeff (Decimal.inRange_of_ofText hread)
        have hsame := Decimal.value_plain coeff exp
        refine ⟨_, ⟨_, h, ?_, ?_⟩, hsame⟩
        · rw [hformat, List.all_append, List.all_eq_true.mpr]
          · rfl
          · intro c hc
            have := (hplain c hc).bounds
            exact decide_eq_true (by omega)
        · rw [hformat, Decimal.strip_append_space (by decide), Decimal.strip_plain hplain,
            decimalText, hback]
          simp only
          rw [if_pos ⟨rfl, hsame ▸ hvalue⟩]
    · cases hrate

/-- Reading a file, and then what is done with it. -/
theorem keeps_readFile {k : Option Text → Adapter α} (hI : I w)
    (hk : Keeps machine I Q E (k (w.files operationId name)) w) :
    Keeps machine I Q E (.call (.readFile operationId name) k) w := by
  refine ⟨?_, ?_⟩
  · rintro w' rfl
    exact hI
  · rintro a w' ⟨rfl, rfl⟩
    exact ⟨hI, hk⟩

/-- What is read is what was to be written, or it has just been written. -/
def Recorded (w w' : ProviderWorld) (operationId name value : Text) : Prop :=
  Reads w' operationId name value ∨
    (value ≠ [] ∧ w.files operationId name = none ∧ w'.files operationId name = some (value ++ [10]))

/-- The same for the admitted rate. -/
def RecordedRate (w w' : ProviderWorld) (operationId : Text) (rate : Decimal) : Prop :=
  (∃ d, ReadsRate w' operationId d ∧ d.value = rate.value) ∨
    (w.files operationId rateFile = none ∧
      w'.files operationId rateFile = some (rate.formatF ++ [10]))

/-- `_volume_key` is quiet. -/
theorem keeps_volumeKey {Q : Text → ProviderWorld → Prop} (hI : ∀ w', Quiet w w' → I w')
    (hE : ∀ e w', Quiet w w' → E e w') (hQ : ∀ key w', Quiet w w' → Q key w') :
    Keeps machine I Q E (volumeKey operationId) w := by
  refine ⟨?_, ?_⟩
  · rintro w' (rfl | rfl)
    · exact hI _ .rfl
    · exact hI _ quiet_withOperation
  rintro made w₁ hmade
  have hquiet : Quiet w w₁ := by
    rcases hmade with rfl | ⟨-, rfl⟩
    · exact quiet_withOperation
    · exact .rfl
  refine ⟨hI _ hquiet, ?_⟩
  beta_reduce
  split
  · exact hE _ _ hquiet
  refine ⟨fun w' h => h ▸ hI _ hquiet, ?_⟩
  rintro key _ ⟨-, -, rfl⟩
  refine ⟨hI _ hquiet, ?_, ?_⟩
  · rintro w' (rfl | ⟨hnone, part, -, rfl⟩)
    · exact hI _ hquiet
    · exact hI _ (hquiet.trans (quiet_withFile hnone))
  intro a w₂ hcreate
  change execute _ (.createFile operationId (txt "volume-key") (key ++ [10])) a w₂ at hcreate
  rw [execute] at hcreate
  split at hcreate
  · obtain ⟨rfl, rfl⟩ := hcreate
    refine ⟨hI _ hquiet, keeps_readFile (hI _ hquiet) ?_⟩
    split
    · exact hE _ _ hquiet
    · simp only
      split
      · exact hQ _ _ hquiet
      · exact hE _ _ hquiet
  · next hnone =>
    have hwritten : ∀ t, Quiet w (ProviderWorld.withFile _ operationId (txt "volume-key") t) :=
      fun _ =>
      hquiet.trans (quiet_withFile hnone)
    rcases hcreate with ⟨rfl, rfl⟩ | ⟨rfl, rfl | ⟨part, -, rfl⟩⟩
    · exact ⟨hI _ (hwritten _), hQ _ _ (hwritten _)⟩
    · exact ⟨hI _ hquiet, hE _ _ hquiet⟩
    · exact ⟨hI _ (hwritten _), hE _ _ (hwritten _)⟩

end RunPod

end RunpodJobrunner
