import ProviderSchema.CommandLine.Run
import ProviderSchema.Proofs.Assembly.Success
import ProviderSchema.Proofs.Configuration.Validity
import ProviderSchema.Proofs.Files.Writing

/-!
# Generating and validating agree

Both commands load a configuration and a document and generate the provider.
`Fails` lists the stages at which nothing comes of that; an entry that is skipped
is not among them.  `fails_iff` says that these are all the failures there are.

`carryOut_generate_validate` states what follows for the runs.  If a stage fails,
both commands fail, say nothing on the output and leave the files alone.  If not,
both succeed: to validate changes nothing, and what is generated is one text,
which goes either to the output or to the file that is asked for, and nowhere
else.

What is read is a parameter there, because a file that exists may still be closed
to the program, or hold no text; `FileState.run` is the case in which the files
themselves are read.  The states of the files are all lists of entries: one whose
last name is empty, which no path reaches, stands for an empty directory.
-/

namespace ProviderSchema

open OpenApi

/-- A stage at which nothing comes of a document and a configuration. -/
inductive Fails (read : String → Except FileError String) (input config : String) : Prop where
  | configurationUnread {e : FileError} (h : read config = .error e)
  | configurationUndecoded {text : String} (hread : read config = .ok text)
      (h : Configuration.read? text = none)
  | configurationInvalid {text : String} {c : Configuration} (hread : read config = .ok text)
      (hdecode : Configuration.read? text = some c) (h : ¬ c.WellFormed)
  | documentUnread {e : FileError} (h : read input = .error e)
  | documentUnparsed {text : String} {e : ReadingError} (hread : read input = .ok text)
      (h : Description.read (formatOf input) text = .error e)
  | provider {configuration document : String} {c : Configuration} {d : Description}
      {e : GenerationError} (hconfiguration : read config = .ok configuration)
      (hdecode : Configuration.read? configuration = some c) (hdocument : read input = .ok document)
      (hparse : Description.read (formatOf input) document = .ok d)
      (h : (Source.ofDescription d (some (LineIndex.ofText document))).provider c.provider =
        .error e)

section Stages

variable {read : String → Except FileError String} {input config : String}

/-! ## The stages -/

theorem loadConfiguration_eq_ok_iff {c : Configuration} :
    loadConfiguration read config = .ok c ↔
      ∃ text, read config = .ok text ∧ Configuration.read? text = some c ∧ c.WellFormed := by
  rw [loadConfiguration]
  cases hread : read config with
  | error e => simp [Configuration.load]
  | ok text =>
    cases hdecode : Configuration.read? text with
    | none => simp [Configuration.load, hdecode]
    | some c' =>
      have hload : Configuration.load (.ok text) = .ok c' := by rw [Configuration.load, hdecode]
      rw [hload]
      dsimp only
      by_cases hvalid : c'.isValid = true
      · have hchecked : c'.checked = .ok c' := if_pos hvalid
        rw [hchecked]
        simp only [Except.ok.injEq, exists_eq_left', hdecode, Option.some.injEq]
        refine ⟨?_, And.left⟩
        rintro rfl
        exact ⟨rfl, Configuration.isValid_iff.mp hvalid⟩
      · have hchecked : c'.checked = .error (.invalid c'.problems) := if_neg hvalid
        rw [hchecked]
        simp only [Except.ok.injEq, exists_eq_left', hdecode, Option.some.injEq, reduceCtorEq,
          false_iff]
        rintro ⟨rfl, hwell⟩
        exact hvalid (Configuration.isValid_iff.mpr hwell)

theorem loadDescription_eq_ok_iff {d : Description} {lines : LineIndex} :
    loadDescription read input = .ok (d, lines) ↔
      ∃ text, read input = .ok text ∧ Description.read (formatOf input) text = .ok d ∧
        lines = LineIndex.ofText text := by
  rw [loadDescription]
  cases hread : read input with
  | error e => simp
  | ok text =>
    dsimp only
    cases hparse : Description.read (formatOf input) text with
    | error e => simp [hparse]
    | ok d' => simp [hparse, eq_comm]

/-- Only the provider can make the generation fail. -/
theorem exists_generate_eq_ok_iff {d : Description} {c : Configuration}
    {lines : Option LineIndex} :
    (∃ g, generate d c lines = .ok g) ↔
      ∃ p, (Source.ofDescription d lines).provider c.provider = .ok p := by
  constructor
  · rintro ⟨g, hg⟩
    exact ⟨_, provider_eq_ok_of_generate_eq_ok hg⟩
  · rintro ⟨p, hp⟩
    exact ⟨⟨⟨_, p, _, _⟩, _⟩, generate_eq_ok_iff.mpr ⟨hp, _, _, rfl, rfl, rfl, rfl⟩⟩

theorem generateFrom_eq_ok_iff {g : Generated} :
    generateFrom read input config = .ok g ↔
      ∃ c d lines, loadConfiguration read config = .ok c ∧
        loadDescription read input = .ok (d, lines) ∧ generate d c (some lines) = .ok g := by
  rw [generateFrom]
  cases hconfiguration : loadConfiguration read config with
  | error f => simp
  | ok c =>
    dsimp only
    cases hdescription : loadDescription read input with
    | error f => simp
    | ok loaded =>
      obtain ⟨d, lines⟩ := loaded
      dsimp only
      cases hgenerate : generate d c (some lines) with
      | error e => simp [Except.mapError, hgenerate]
      | ok g' => simp [Except.mapError, hgenerate]

/-- The stages that `Fails` lists are all that can fail. -/
theorem fails_iff : Fails read input config ↔ ∀ g, generateFrom read input config ≠ .ok g := by
  constructor
  · intro hfails g hg
    obtain ⟨c, d, lines, hc, hd, hgenerate⟩ := generateFrom_eq_ok_iff.mp hg
    obtain ⟨configuration, hconfiguration, hdecode, hwell⟩ := loadConfiguration_eq_ok_iff.mp hc
    obtain ⟨document, hdocument, hparse, rfl⟩ := loadDescription_eq_ok_iff.mp hd
    cases hfails with
    | configurationUnread h => simp [h] at hconfiguration
    | configurationUndecoded hread h =>
      obtain rfl := Except.ok.inj (hread.symm.trans hconfiguration)
      simp [h] at hdecode
    | configurationInvalid hread hdecode' h =>
      obtain rfl := Except.ok.inj (hread.symm.trans hconfiguration)
      obtain rfl := Option.some.inj (hdecode'.symm.trans hdecode)
      exact h hwell
    | documentUnread h => simp [h] at hdocument
    | documentUnparsed hread h =>
      obtain rfl := Except.ok.inj (hread.symm.trans hdocument)
      simp [h] at hparse
    | provider hconfiguration' hdecode' hdocument' hparse' h =>
      obtain rfl := Except.ok.inj (hconfiguration'.symm.trans hconfiguration)
      obtain rfl := Option.some.inj (hdecode'.symm.trans hdecode)
      obtain rfl := Except.ok.inj (hdocument'.symm.trans hdocument)
      obtain rfl := Except.ok.inj (hparse'.symm.trans hparse)
      simp [provider_eq_ok_of_generate_eq_ok hgenerate] at h
  · intro hnone
    cases hconfiguration : read config with
    | error e => exact .configurationUnread hconfiguration
    | ok configuration =>
      cases hdecode : Configuration.read? configuration with
      | none => exact .configurationUndecoded hconfiguration hdecode
      | some c =>
        by_cases hwell : c.WellFormed
        case neg => exact .configurationInvalid hconfiguration hdecode hwell
        cases hdocument : read input with
        | error e => exact .documentUnread hdocument
        | ok document =>
          cases hparse : Description.read (formatOf input) document with
          | error e => exact .documentUnparsed hdocument hparse
          | ok d =>
            cases hprovider :
                (Source.ofDescription d (some (LineIndex.ofText document))).provider c.provider with
            | error e => exact .provider hconfiguration hdecode hdocument hparse hprovider
            | ok p =>
              obtain ⟨g, hg⟩ := exists_generate_eq_ok_iff.mpr ⟨p, hprovider⟩
              have hc := loadConfiguration_eq_ok_iff.mpr ⟨_, hconfiguration, hdecode, hwell⟩
              have hd := loadDescription_eq_ok_iff.mpr ⟨_, hdocument, hparse, rfl⟩
              exact absurd (generateFrom_eq_ok_iff.mpr ⟨c, d, _, hc, hd, hg⟩) (hnone g)

end Stages

/-! ## The runs -/

namespace FileState

/-- How a run ends that comes to nothing: it fails, says nothing on the output and
leaves the files as they are. -/
structure Refused (s : FileState) (run : Report × FileState) : Prop where
  code : run.1.code ≠ 0
  output : run.1.output = ""
  files : run.2 = s

/-- How a run ends that succeeds, with a text on the output and files after it. -/
structure Passed (output : String) (s' : FileState) (run : Report × FileState) : Prop where
  code : run.1.code = 0
  output : run.1.output = output
  files : run.2 = s'

variable {s : FileState} {read : String → Except FileError String} {input config : String}
  {arguments : List String} {command : Command}

theorem planOf_eq (h : Command.ofArguments? arguments = some command) :
    Command.planOf read arguments = command.plan read := by
  rw [Command.planOf, h]

theorem refused_report (s : FileState) (f : Failure) : Refused s (s.carryOut (.report f.report)) :=
  ⟨Nat.one_ne_zero, rfl, rfl⟩

/-- A text that can be written is written, and nothing is said but what was planned. -/
theorem carryOut_write_of_eq_ok {s' : FileState} {path text : String} (done : Report)
    (h : s.write path text = .ok s') : s.carryOut (.write path text done) = (done, s') := by
  unfold carryOut
  simp only [h]

/-- If a stage fails, so do both commands. -/
theorem refused_of_fails (hfails : Fails read input config)
    (h : Command.ofArguments? arguments = some (.validate input config) ∨
      ∃ output, Command.ofArguments? arguments = some (.generate input config output)) :
    Refused s (s.carryOut (Command.planOf read arguments)) := by
  obtain ⟨f, hf⟩ : ∃ f, generateFrom read input config = .error f := by
    cases hgenerate : generateFrom read input config with
    | error f => exact ⟨f, rfl⟩
    | ok g => exact absurd hgenerate (fails_iff.mp hfails g)
  rcases h with h | ⟨output, h⟩ <;> rw [planOf_eq h, Command.plan, hf] <;> exact refused_report s f

/-- Whatever is read from files, `generate` and `validate` both come to nothing if a
stage fails.  If not, both succeed, `validate` changes nothing, and `generate` has
one text for the output and for the file, which is all that it changes. -/
theorem carryOut_generate_validate (s : FileState) (read : String → Except FileError String)
    (input config : String) :
    (Fails read input config → ∀ arguments,
      (Command.ofArguments? arguments = some (.validate input config) ∨
        ∃ output, Command.ofArguments? arguments = some (.generate input config output)) →
      Refused s (s.carryOut (Command.planOf read arguments))) ∧
    (¬ Fails read input config → ∃ text,
      (∀ arguments, Command.ofArguments? arguments = some (.validate input config) →
        Passed "" s (s.carryOut (Command.planOf read arguments))) ∧
      (∀ arguments, Command.ofArguments? arguments = some (.generate input config none) →
        Passed text s (s.carryOut (Command.planOf read arguments))) ∧
      ∀ arguments path s',
        Command.ofArguments? arguments = some (.generate input config (some path)) →
        s.write path text = .ok s' →
          Passed "" s' (s.carryOut (Command.planOf read arguments)) ∧
            ChangedOnlyAt (PathName.place path) text s s') := by
  refine ⟨fun hfails arguments h => refused_of_fails hfails h, fun hfails => ?_⟩
  obtain ⟨g, hg⟩ : ∃ g, generateFrom read input config = .ok g := by
    simpa [fails_iff] using hfails
  refine ⟨g.specification.text, fun arguments h => ?_, fun arguments h => ?_,
    fun arguments path s' h hwrite => ⟨?_, changedOnlyAt_of_write_eq_ok hwrite⟩⟩
  · rw [planOf_eq h, Command.plan, hg]
    exact ⟨rfl, rfl, rfl⟩
  · rw [planOf_eq h, Command.plan, hg]
    exact ⟨rfl, rfl, rfl⟩
  · rw [planOf_eq h, Command.plan, hg]
    dsimp only
    rw [carryOut_write_of_eq_ok _ hwrite]
    exact ⟨rfl, rfl, rfl⟩

/-- The text of a document without operations. -/
def petDocument : String :=
  (Json.object [
    ("openapi", .text "3.0.0"),
    ("info", .object [("title", .text "Pets"), ("version", .text "1")]),
    ("paths", .object [])]).compact

/-- The text of a configuration with a resource. -/
def petConfiguration : String :=
  Text.joinWith "\n" [
    "provider:",
    "  name: pets",
    "resources:",
    "  pet:",
    "    create:",
    "      path: /pets",
    "      method: POST",
    "    read:",
    "      path: /pets",
    "      method: GET"]

/-- A document, and a configuration with a resource that is looked for in it. -/
def petFiles : FileState :=
  ⟨[(["pets.json"], petDocument), (["generator_config.yml"], petConfiguration)]⟩

/-- A resource that is skipped does no harm. -/
theorem carryOut_generate_validate_petFiles :
    (∃ g, generateFrom petFiles.read "pets.json" "generator_config.yml" = .ok g ∧
        g.skipped.length = 1) ∧
      ¬ Fails petFiles.read "pets.json" "generator_config.yml" ∧
      ∃ text s', petFiles.write "out/provider.json" text = .ok s' ∧
        Passed "" petFiles (petFiles.run ["validate", "pets.json"]) ∧
        Passed text petFiles (petFiles.run ["generate", "pets.json"]) ∧
        Passed "" s' (petFiles.run ["generate", "pets.json", "-o", "out/provider.json"]) ∧
        ChangedOnlyAt ["out", "provider.json"] text petFiles s' := by
  have hgenerate : ∃ g, generateFrom petFiles.read "pets.json" "generator_config.yml" = .ok g ∧
      g.skipped.length = 1 := by
    have hskipped : ((generateFrom petFiles.read "pets.json" "generator_config.yml").toOption.map
        fun g => g.skipped.length) = some 1 := by decide +kernel
    exact exists_ok_of_toOption_map_eq_some hskipped
  have hfails : ¬ Fails petFiles.read "pets.json" "generator_config.yml" := fun h =>
    hgenerate.elim fun g hg => fails_iff.mp h g hg.1
  obtain ⟨text, hvalidate, houtput, hfile⟩ :=
    (carryOut_generate_validate petFiles petFiles.read _ _).2 hfails
  obtain ⟨s', hwrite⟩ : ∃ s', petFiles.write "out/provider.json" text = .ok s' := ⟨_, rfl⟩
  obtain ⟨hpassed, hchanged⟩ := hfile
    ["generate", "pets.json", "-o", "out/provider.json"] _ s' (by decide +kernel) hwrite
  exact ⟨hgenerate, hfails, text, s', hwrite, hvalidate _ (by decide +kernel),
    houtput _ (by decide +kernel), hpassed, hchanged⟩

end FileState

end ProviderSchema
