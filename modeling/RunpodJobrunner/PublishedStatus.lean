import RunpodJobrunner.RunnerStarts

/-!
# Published statuses

Every status that a runner publishes can be read from the status server, as long as no artifact
manifest is where the runner keeps a file of its own. Which file that is does not depend on how
the paths are written, but on the directories they lead to.
-/

namespace RunpodJobrunner

open Json Identity Process

namespace Runner

/-- The artifact manifest is not where the runner keeps its status or its terminal result. -/
def Arguments.KeepsClear (args : Arguments) : Prop :=
  args.manifestPlace ≠ .status ∧ args.manifestPlace ≠ .terminal

instance (args : Arguments) : Decidable args.KeepsClear :=
  inferInstanceAs (Decidable (args.manifestPlace ≠ .status ∧ args.manifestPlace ≠ .terminal))

/-- Processes of any runs, none of them with such a manifest. -/
def noManifest : Setting := ⟨True, none⟩

theorem meets_noManifest {args : Arguments} (h : args.Loaded ∧ args.KeepsClear) :
    args.Meets noManifest := by
  refine ⟨fun _ => h.1, fun _ => ?_, nofun⟩
  obtain ⟨-, hstatus, hterminal⟩ := h
  cases hplace : args.manifestPlace with
  | elsewhere => exact .inl rfl
  | events => exact .inr rfl
  | status => exact absurd hplace hstatus
  | terminal => exact absurd hplace hterminal

/-- **Every published status can be read**, and is shown as what it says, after any processes on
the directory, each of which may die anywhere, none of which has its artifact manifest at
`status.json` or at `terminal-result.json`. -/
theorem published_status_shown {floatOf : FloatLiteral → JsonFloat} {w : World}
    (h : Reached floatOf (fun args => args.Loaded ∧ args.KeepsClear) w) :
    ∀ s ∈ w.published, Projects floatOf s :=
  (h.sound fun _ => meets_noManifest).published trivial

theorem loaded_phased : phasedArguments.Loaded ∧ phasedArguments.KeepsClear := by
  refine ⟨⟨nofun, fun members majors hmembers hmajors => ?_⟩, by decide +kernel⟩
  obtain rfl : phasedReceipt = members := Json.obj.inj (ReleaseReceipt.read.inj hmembers)
  obtain rfl := Json.obj.inj hmajors
  decide +kernel

theorem published_status_shown_sample :
    let w := (played sampleToken phasedArguments 5 .empty).world
    w.published.length = 7 ∧ ∀ s ∈ w.published, Projects .literal s :=
  ⟨by decide +kernel,
    published_status_shown (Reached.played .empty loaded_phased (by decide +kernel))⟩

/-! ## A manifest at the terminal result -/

/-- A process whose manifest is where the terminal result is. -/
def aliasedArguments : Arguments where
  request :=
    sampleRequest .null ++ [(txt "artifact_manifest_path", .str (txt "status/terminal-result.json"))]
  statusDir := .ofText (txt "/workspace/runpod-jobrunner/runs/run-1/status")
  located := id
  runnerIdentity := none
  statusTokenSha256 := none
  receipt := .unavailable (txt "missing")

/-- What such a process leaves. -/
def aliasedWorld (w : World) : World := (played none aliasedArguments 0 w).world

/-- The first process fails and writes a manifest, which it takes for the terminal result; the second
publishes it as one. -/
theorem aliased_manifest_not_shown :
    validateRequest aliasedArguments.request = .ok aliasedArguments.request ∧
      Reached .literal Arguments.Loaded (aliasedWorld (aliasedWorld .empty)) ∧
        ∃ s ∈ (aliasedWorld (aliasedWorld .empty)).published,
          StatusServer.publicStatus .literal 0 (stored s) =
            .error (.record (txt "invalid completed phases")) := by
  have hloaded : aliasedArguments.Loaded := ⟨nofun, nofun⟩
  refine ⟨by decide +kernel, ?_, ?_⟩
  · exact .played (.played .empty hloaded (by decide +kernel)) hloaded (by decide +kernel)
  · have hshown : ((aliasedWorld (aliasedWorld .empty)).published.map fun s =>
        StatusServer.publicStatus .literal 0 (stored s)) =
          [.error (.record (txt "invalid completed phases"))] := by
      decide +kernel
    obtain ⟨s, hs, hfault⟩ := List.mem_map.mp (hshown ▸ List.mem_singleton_self _)
    exact ⟨s, hs, hfault⟩

/-- The manifest is there as well where the status directory is given from the working
directory, or by a link that leads to it. -/
example :
    ({ aliasedArguments with
      statusDir := .ofText (txt "status")
      located := fun directory =>
        if directory = .ofText (txt "status") then
          .ofText (txt "/workspace/runpod-jobrunner/runs/run-1/status")
        else directory } : Arguments).manifestPlace = .terminal := by
  decide +kernel

end Runner

end RunpodJobrunner
