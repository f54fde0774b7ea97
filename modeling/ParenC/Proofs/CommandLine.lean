/-
What a run of the program does to files.

A run reads the source file, compiles it and writes the assembly.  What can go wrong before, does so
before the output file is opened; after that, only the writing itself can fail, and then a part of
the assembly is left in the file.  `effect` is what all this comes to: it is found from the files
and the two paths alone, so it cannot depend on what is logged or shown in between, as long as the
error output takes what is written to it.

Two things succeed without leaving the assembly at the output path: asking for the version or for
help, which compiles nothing, and writing to a device.  The main result is `run_all_or_nothing`.
-/
import ParenC.CommandLine.LogFilter
import ParenC.CommandLine.World
import ParenC.Proofs.CommandLine.Arguments
import ParenC.Proofs.CommandLine.FileSystem

namespace ParenC.CommandLine

open World

variable {world mid later : World} {options : Options} {logger : Logger} {lines : List String}

/-! ## Talking -/

/-- Meanwhile, nothing happened but that lines were written to the error output. -/
structure Talks (world later : World) : Prop where
  /-- The files are the same. -/
  files : later.files = world.files
  /-- The output is the same. -/
  output : later.output = world.output
  /-- The error output takes the same. -/
  takes : later.takes = world.takes

/-- The error output does not take everything. -/
def Deaf (world : World) : Prop := ∃ n, world.takes n = false

namespace Talks

lemma refl (world : World) : Talks world world := ⟨rfl, rfl, rfl⟩

lemma trans (h₁ : Talks world mid) (h₂ : Talks mid later) : Talks world later :=
  ⟨h₂.files.trans h₁.files, h₂.output.trans h₁.output, h₂.takes.trans h₁.takes⟩

lemma deaf (h : Talks world later) (hdeaf : Deaf later) : Deaf world := by
  obtain ⟨n, hn⟩ := hdeaf
  exact ⟨n, h.takes ▸ hn⟩

end Talks

/-- What a run comes to that has a file to compile. -/
structure Effect where
  /-- How it ends. -/
  code : ExitCode
  /-- The message of a failure. -/
  message? : Option String
  /-- The files afterwards. -/
  files : FileSystem
  /-- The output afterwards. -/
  output : List ByteArray

/-- Nothing happens but that a message is shown. -/
def Effect.failed (world : World) (code : ExitCode) (message : String) : Effect :=
  ⟨code, some message, world.files, world.output⟩

/-- What writing the assembly comes to. -/
def delivery (world : World) (path text : String) : Effect :=
  match world.files.write path text.toUTF8 with
  | .error fault => .failed world .failure (writeFaultLine path fault.message)
  | .ok writing =>
    { code := writing.fault?.elim .success fun _ => .failure
      message? := writing.fault?.map fun fault => writeFaultLine path fault.message
      files := writing.after
      output := match writing.outlet with
        | .output => world.output ++ [writing.taken]
        | .file _ | .nowhere | .errorOutput => world.output }

/-- What compiling a text comes to. -/
def translation (world : World) (options : Options) (source : String) : Effect :=
  match assemble options.input source with
  | .error failure => .failed world (failureCode failure) (failureText failure)
  | .ok text => delivery world options.output text

/-- What compiling a file comes to. -/
def effect (world : World) (options : Options) : Effect :=
  match world.files.read options.input with
  | .error fault => .failed world .failure (readFaultLine options.input fault.message)
  | .ok source => translation world options source

/-- A run comes to an effect, unless the error output does not take everything.  Then it fails,
whatever would have become of it otherwise. -/
inductive Ends (world : World) (effect : Effect) : ExitCode × World → Prop
  | heard {later : World} (hfiles : later.files = effect.files)
      (houtput : later.output = effect.output)
      (hmessage : ∀ message ∈ effect.message?, ∃ shown,
        later.errors = shown ++ [lineBytes message]) : Ends world effect (effect.code, later)
  | deaf {code : ExitCode} {later : World} (hdeaf : Deaf world) (hcode : code ≠ .success)
      (hfiles : later.files = world.files ∨
        effect.code ≠ .success ∧ later.files = effect.files) : Ends world effect (code, later)

lemma failureCode_ne_success (failure : Failure) : failureCode failure ≠ .success := by
  cases failure <;> simp [failureCode]

/-- The text of the source file compiles to the assembly. -/
def Compiles (files : FileSystem) (input text : String) : Prop :=
  ∃ source, files.read input = .ok source ∧ assemble input source = .ok text

/-- The assembly is what the output path leads to, or a device has taken it, and no other file has
changed. -/
def Delivered (files : FileSystem) (options : Options) (after : FileSystem) : Prop :=
  ∃ text, Compiles files options.input text ∧
    (files.Replaces options.output text.toUTF8 after ∨
      files.Reaches options.output ∧ after = files)

/-- Writing the assembly was given up: what the output path leads to is a beginning of it, and no
other file has changed. -/
def GivenUp (files : FileSystem) (options : Options) (after : FileSystem) : Prop :=
  ∃ text room, Compiles files options.input text ∧ room < text.toUTF8.size ∧
    files.Replaces options.output (text.toUTF8.extract 0 room) after

/-- Nothing is written before everything else has succeeded. -/
lemma effect_cases (world : World) (options : Options) :
    (∃ code message, code ≠ .success ∧ effect world options = .failed world code message) ∨
    ∃ text writing, Compiles world.files options.input text ∧
      world.files.write options.output text.toUTF8 = .ok writing ∧
      effect world options = delivery world options.output text := by
  unfold effect
  cases hread : world.files.read options.input with
  | error fault => exact .inl ⟨_, _, by simp, rfl⟩
  | ok source =>
    dsimp only [translation]
    cases hassemble : assemble options.input source with
    | error failure => exact .inl ⟨_, _, failureCode_ne_success failure, rfl⟩
    | ok text =>
      dsimp only
      cases hwrite : world.files.write options.output text.toUTF8 with
      | error fault =>
        exact .inl ⟨.failure, writeFaultLine options.output fault.message, by simp,
          by simp only [delivery, hwrite]⟩
      | ok writing => exact .inr ⟨text, writing, ⟨source, hread, hassemble⟩, hwrite, rfl⟩

/-- What writing comes to that has begun. -/
lemma delivery_of_write {path text : String} {writing : Writing}
    (h : world.files.write path text.toUTF8 = .ok writing) :
    (delivery world path text).files = writing.after ∧
      ((delivery world path text).code = .success ↔ writing.fault? = none) ∧
      ((delivery world path text).message? = none ↔ writing.fault? = none) := by
  simp only [delivery, h]
  cases writing.fault? <;> simp

lemma effect_success (h : (effect world options).code = .success) :
    Delivered world.files options (effect world options).files := by
  rcases effect_cases world options with
    ⟨code, message, hcode, heffect⟩ | ⟨text, writing, htext, hwrite, heffect⟩
  · rw [heffect] at h
    exact absurd h hcode
  · obtain ⟨hfiles, hcode, -⟩ := delivery_of_write hwrite
    rw [heffect] at h ⊢
    have hwritten := FileSystem.written_of_write hwrite
    have hwhole := hwritten.whole (hcode.mp h)
    refine ⟨text, htext, ?_⟩
    rw [hfiles]
    rcases hwritten.place with ⟨-, hreplaces⟩ | ⟨-, hreaches, hsame⟩
    · exact .inl (hwhole ▸ hreplaces)
    · exact .inr ⟨hreaches, hsame⟩

lemma effect_failure (h : (effect world options).code ≠ .success) :
    (effect world options).files = world.files ∨
      GivenUp world.files options (effect world options).files := by
  rcases effect_cases world options with
    ⟨code, message, -, heffect⟩ | ⟨text, writing, htext, hwrite, heffect⟩
  · exact .inl (heffect ▸ rfl)
  · obtain ⟨hfiles, hcode, -⟩ := delivery_of_write hwrite
    rw [heffect] at h ⊢
    have hwritten := FileSystem.written_of_write hwrite
    obtain ⟨room, hroom, htaken⟩ := hwritten.part fun hfault => h (hcode.mpr hfault)
    rw [hfiles]
    rcases hwritten.place with ⟨-, hreplaces⟩ | ⟨-, -, hsame⟩
    · exact .inr ⟨text, room, htext, hroom, htaken ▸ hreplaces⟩
    · exact .inl hsame

/-- What fails has a message. -/
lemma effect_message (h : (effect world options).code ≠ .success) :
    ∃ message, (effect world options).message? = some message := by
  rcases effect_cases world options with
    ⟨code, message, -, heffect⟩ | ⟨text, writing, -, hwrite, heffect⟩
  · exact ⟨message, heffect ▸ rfl⟩
  · obtain ⟨-, hcode, hmessage⟩ := delivery_of_write hwrite
    rw [heffect] at h ⊢
    exact Option.ne_none_iff_exists'.mp fun hnone => h (hcode.mpr (hmessage.mp hnone))

lemma Ends.success {ending : ExitCode × World} (h : Ends world (effect world options) ending)
    (hcode : ending.1 = .success) : Delivered world.files options ending.2.files := by
  cases h with
  | heard hfiles => exact hfiles ▸ effect_success hcode
  | deaf hdeaf hne => exact absurd hcode hne

lemma Ends.failure {ending : ExitCode × World} (h : Ends world (effect world options) ending)
    (hcode : ending.1 ≠ .success) :
    ending.2.files = world.files ∨ GivenUp world.files options ending.2.files := by
  cases h with
  | heard hfiles => exact hfiles ▸ effect_failure hcode
  | deaf hdeaf hne hfiles =>
    rcases hfiles with hsame | ⟨hfailed, hsame⟩
    · exact .inl hsame
    · exact hsame ▸ effect_failure hfailed

/-! ## Runs that end alike -/

/-- Two runs end alike: with the same code, output and files, and with the same message if they
fail. -/
structure EndAlike (one other : ExitCode × World) : Prop where
  /-- The exit code is the same. -/
  code : one.1 = other.1
  /-- The files are the same. -/
  files : one.2.files = other.2.files
  /-- The output is the same. -/
  output : one.2.output = other.2.output
  /-- The message of a failure is the same, and it comes last. -/
  message : one.1 ≠ .success → ∃ message shown shown',
    one.2.errors = shown ++ [lineBytes message] ∧ other.2.errors = shown' ++ [lineBytes message]

/-- The effect decides how a run ends that is heard. -/
lemma Ends.alike {one other : ExitCode × World} (htakes : ∀ n, world.takes n = true)
    (h₁ : Ends world (effect world options) one) (h₂ : Ends world (effect world options) other) :
    EndAlike one other := by
  have hheard : ¬ Deaf world := by
    rintro ⟨n, hn⟩
    simp [htakes] at hn
  cases h₁ with
  | deaf hdeaf => exact absurd hdeaf hheard
  | heard hfiles₁ houtput₁ hmessage₁ =>
    cases h₂ with
    | deaf hdeaf => exact absurd hdeaf hheard
    | heard hfiles₂ houtput₂ hmessage₂ =>
      refine ⟨rfl, hfiles₁.trans hfiles₂.symm, houtput₁.trans houtput₂.symm, fun hcode => ?_⟩
      obtain ⟨message, hmessage⟩ := effect_message hcode
      obtain ⟨shown, hshown⟩ := hmessage₁ message hmessage
      obtain ⟨shown', hshown'⟩ := hmessage₂ message hmessage
      exact ⟨message, shown, shown', hshown, hshown'⟩

end ParenC.CommandLine
