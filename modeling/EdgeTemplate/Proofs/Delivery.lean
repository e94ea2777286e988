import EdgeTemplate.Command
import EdgeTemplate.Command.Workdir
import EdgeTemplate.Proofs.Outcome
import Mathlib.Logic.Function.Basic

/-!
# Delivery of results

A command either fails and leaves files and output as they were, or it puts the processed template
into one place and touches nothing else. This holds on every host that does with each file what it
is asked to do: a read changes nothing and gives what the file holds, and a write replaces the whole
file or fails without a trace. All stages of a command but the last one only read, so that nothing
has been written when one of them fails, and what they have read is what was there at the start.

Nothing is taken for granted about the standard output when it fails. It may have taken a part of the
result by then, and that is the one way in which a failed command leaves a trace.
-/
namespace EdgeTemplate

variable {σ α β : Type}

/-! ### What a system holds -/

/-- The contents of the files and of the standard input, and what the standard output has taken,
whether or not it has passed it on by then. -/
structure Holdings where
  file : String → Option ByteArray
  input : ByteArray
  output : ByteArray

def Holdings.Untouched (before after : Holdings) : Prop :=
  after.file = before.file ∧ after.output = before.output

theorem Holdings.Untouched.of_eq {before after : Holdings} (h : after = before) :
    before.Untouched after := by
  rw [h]
  exact ⟨rfl, rfl⟩

theorem Holdings.Untouched.trans {before middle after : Holdings}
    (h : before.Untouched middle) (h' : middle.Untouched after) : before.Untouched after :=
  ⟨h'.1.trans h.1, h'.2.trans h.2⟩

/-- The standard output has taken the first of the given bytes, perhaps none of them. -/
def TookPart (bytes before after : ByteArray) : Prop :=
  ∃ part rest, bytes = part ++ rest ∧ after = before ++ part

/-- What has become of the standard output with the given outcome of a write. -/
def Sent (bytes before after : ByteArray) : Except FileError Unit → Prop
  | .ok () => after = before ++ bytes
  | .error _ => TookPart bytes before after

/-- A host does what it is asked to do with the files and streams that its states hold. Each path
has a file of its own. A write to a file that fails leaves everything as it was, one to the standard
output may have got through in part. Messages are not part of the output. -/
structure Host.Faithful (host : Host (StateM σ)) (held : σ → Holdings) : Prop where
  readFile {path : String} {s s' : σ} {result : Except FileError String}
    (h : (host.readFile path).run s = (result, s')) :
    held s' = held s ∧ ∀ text, result = .ok text → (held s).file path = some text.toUTF8
  readInput {s s' : σ} {result : Except FileError String}
    (h : host.readInput.run s = (result, s')) :
    (held s).Untouched (held s') ∧ ∀ text, result = .ok text → (held s).input = text.toUTF8
  writeFile {path text : String} {s s' : σ} {result : Except FileError Unit}
    (h : (host.writeFile path text).run s = (result, s')) :
    (held s').output = (held s).output ∧ (held s').file =
      match result with
      | .ok () => Function.update (held s).file path (some text.toUTF8)
      | .error _ => (held s).file
  writeOutput {text : String} {s s' : σ} {result : Except FileError Unit}
    (h : (host.writeOutput text).run s = (result, s')) :
    (held s').file = (held s).file ∧ Sent text.toUTF8 (held s).output (held s').output result
  writeError {text : String} {s s' : σ} (h : (host.writeError text).run s = ((), s')) :
    held s' = held s

/-- The standard output takes a text whole or not at all. -/
def Host.WholeOutput (host : Host (StateM σ)) (held : σ → Holdings) : Prop :=
  ∀ text cause s s', (host.writeOutput text).run s = (.error cause, s') →
    (held s').output = (held s).output

/-- The defines that a source gives when the files have the given contents. -/
def DefinesSource.Gives (file : String → Option ByteArray) : DefinesSource → Defines → Prop
  | given none text pairs, defines => Defines.collect none text pairs = .ok defines
  | given (some path) text pairs, defines =>
    ∃ content : String, file path = some content.toUTF8 ∧
      Defines.collect (some content) text pairs = .ok defines
  | request lines, defines => ∃ headers, Headers.ofLines lines = .ok headers ∧
      headers.signals = defines

namespace Command

def Reads (command : Command) (held : Holdings) (text : String) : Prop :=
  if command.input = "-" then held.input = text.toUTF8
  else held.file command.input = some text.toUTF8

def Renders (command : Command) (held : Holdings) (text : String) : Prop :=
  ∃ defines source, command.source.Gives held.file defines ∧ command.Reads held source ∧
    Template.process defines source = .ok text

/-- The text has gone to the one place that the command names, and nothing else has changed. -/
def Delivers (command : Command) (text : String) (before after : Holdings) : Prop :=
  match command.output with
  | some path =>
    after.file = Function.update before.file path (some text.toUTF8) ∧
      after.output = before.output
  | none => after.file = before.file ∧ after.output = before.output ++ text.toUTF8

/-- The text was to go to the standard output, which failed when it had taken a part of it. Nothing
else has changed. -/
def BreaksOff (command : Command) (text : String) (error : Error) (before after : Holdings) : Prop :=
  command.output = none ∧ error.kind = .file ∧ after.file = before.file ∧
    TookPart text.toUTF8 before.output after.output

end Command

theorem Holdings.Untouched.delivers {before middle after : Holdings} {command : Command}
    {text : String} (h : before.Untouched middle) (h' : command.Delivers text middle after) :
    command.Delivers text before after := by
  unfold Command.Delivers at h' ⊢
  rwa [h.1, h.2] at h'

theorem Holdings.Untouched.breaksOff {before middle after : Holdings} {command : Command}
    {text : String} {error : Error} (h : before.Untouched middle)
    (h' : command.BreaksOff text error middle after) :
    command.BreaksOff text error before after := by
  unfold Command.BreaksOff at h' ⊢
  rwa [h.1, h.2] at h'

/-! ### Stages of a command -/

theorem run_bind_cases {x : ExceptT Error (StateM σ) α} {f : α → ExceptT Error (StateM σ) β}
    {s s' : σ} {result : Except Error β} (h : (x >>= f).run.run s = (result, s')) :
    (∃ error, x.run.run s = (.error error, s') ∧ result = .error error) ∨
      ∃ a middle, x.run.run s = (.ok a, middle) ∧ (f a).run.run middle = (result, s') := by
  rw [ExceptT.run_bind, StateT.run_bind] at h
  rcases hx : x.run.run s with ⟨outcome, middle⟩
  rw [hx] at h
  cases outcome with
  | error error =>
    obtain ⟨rfl, rfl⟩ := Prod.mk.inj h
    exact .inl ⟨error, rfl, rfl⟩
  | ok a => exact .inr ⟨a, middle, rfl, h⟩

theorem Host.run_attempt {operation : StateM σ (Except FileError α)} {s s' : σ}
    {result : Except Error α} (h : (Host.attempt operation).run.run s = (result, s')) :
    ∃ outcome, operation.run s = (outcome, s') ∧ result = outcome.mapError .file := by
  obtain ⟨rfl, rfl⟩ := Prod.mk.inj h
  exact ⟨_, rfl, rfl⟩

namespace Host.Faithful

variable {host : Host (StateM σ)} {held : σ → Holdings} {s s' : σ} {command : Command}

theorem file (faithful : host.Faithful held) {path : String} {result : Except Error String}
    (h : (host.file path).run.run s = (result, s')) :
    held s' = held s ∧ ∀ text, result = .ok text → (held s).file path = some text.toUTF8 := by
  obtain ⟨outcome, hread, rfl⟩ := run_attempt h
  obtain ⟨hheld, hfile⟩ := faithful.readFile hread
  exact ⟨hheld, fun text htext => hfile text (Outcome.mapError_eq_ok_iff.mp htext)⟩

theorem readSource (faithful : host.Faithful held) {result : Except Error String}
    (h : (Command.readSource host command.input).run.run s = (result, s')) :
    (held s).Untouched (held s') ∧ ∀ text, result = .ok text → command.Reads (held s) text := by
  unfold Command.readSource at h
  unfold Command.Reads
  split at h
  · rename_i hdash
    obtain ⟨outcome, hread, rfl⟩ := run_attempt h
    obtain ⟨hheld, hinput⟩ := faithful.readInput hread
    simp only [if_pos hdash]
    exact ⟨hheld, fun text htext => hinput text (Outcome.mapError_eq_ok_iff.mp htext)⟩
  · rename_i hdash
    obtain ⟨hheld, hfile⟩ := faithful.file h
    simp only [if_neg hdash]
    exact ⟨.of_eq hheld, hfile⟩

theorem gather (faithful : host.Faithful held) {source : DefinesSource}
    {result : Except Error Defines} (h : (source.gather host).run.run s = (result, s')) :
    held s' = held s ∧ ∀ defines, result = .ok defines → source.Gives (held s).file defines := by
  cases source with
  | request lines =>
    rcases run_bind_cases h with ⟨error, hread, rfl⟩ | ⟨headers, middle, hread, hrest⟩
    · obtain ⟨-, rfl⟩ := Prod.mk.inj hread
      exact ⟨rfl, by rintro _ ⟨⟩⟩
    · obtain ⟨hlines, rfl⟩ := Prod.mk.inj hread
      obtain ⟨rfl, rfl⟩ := Prod.mk.inj hrest
      exact ⟨rfl, fun defines hdefines => ⟨headers, hlines, Except.ok.inj hdefines⟩⟩
  | given file text pairs =>
    cases file with
    | none =>
      obtain ⟨rfl, rfl⟩ := Prod.mk.inj h
      exact ⟨rfl, fun defines hdefines => hdefines⟩
    | some path =>
      rw [DefinesSource.gather, Option.mapM_some, map_eq_pure_bind, bind_assoc] at h
      rcases run_bind_cases h with ⟨error, hread, rfl⟩ | ⟨content, middle, hread, hrest⟩
      · exact ⟨(faithful.file hread).1, by rintro _ ⟨⟩⟩
      · obtain ⟨hheld, hfile⟩ := faithful.file hread
        obtain ⟨rfl, rfl⟩ := Prod.mk.inj hrest
        exact ⟨hheld, fun defines hdefines => ⟨content, hfile content rfl, hdefines⟩⟩

theorem render (faithful : host.Faithful held) {result : Except Error String}
    (h : (command.render host).run.run s = (result, s')) :
    (held s).Untouched (held s') ∧ ∀ text, result = .ok text → command.Renders (held s) text := by
  rcases run_bind_cases h with ⟨error, hgather, rfl⟩ | ⟨defines, gathered, hgather, hrest⟩
  · exact ⟨.of_eq (faithful.gather hgather).1, by rintro _ ⟨⟩⟩
  obtain ⟨hheld, hgives⟩ := faithful.gather hgather
  -- Whether the defines are shown or not, the template is read with everything still in place.
  obtain ⟨shown, hshown, hrest⟩ : ∃ shown, held shown = held s ∧
      (Command.readSource host command.input >>= fun source =>
        liftM (Template.process defines source)).run.run shown = (result, s') := by
    dsimp only at hrest
    split at hrest
    · exact ⟨_, (faithful.writeError rfl).trans hheld, hrest⟩
    · exact ⟨gathered, hheld, hrest⟩
  rcases run_bind_cases hrest with ⟨error, hread, rfl⟩ | ⟨source, read, hread, hrest⟩
  · rw [← hshown]
    exact ⟨(faithful.readSource hread).1, by rintro _ ⟨⟩⟩
  · obtain ⟨huntouched, hreads⟩ := faithful.readSource hread
    obtain ⟨rfl, rfl⟩ := Prod.mk.inj hrest
    rw [hshown] at huntouched hreads
    exact ⟨huntouched, fun text htext =>
      ⟨defines, source, hgives defines rfl, hreads source rfl, htext⟩⟩

/-- A text is delivered to its one place, or nothing happens, or the standard output breaks off. -/
theorem deliver (faithful : host.Faithful held) {text : String} {result : Except Error Unit}
    (h : (command.deliver host text).run.run s = (result, s')) :
    (∀ error, result = .error error →
      (host.WholeOutput held → (held s).Untouched (held s')) ∧
        ((held s).Untouched (held s') ∨ command.BreaksOff text error (held s) (held s'))) ∧
      (result = .ok () → command.Delivers text (held s) (held s')) := by
  unfold Command.deliver at h
  unfold Command.Delivers Command.BreaksOff
  generalize command.output = place at h ⊢
  cases place with
  | some path =>
    obtain ⟨outcome, hwrite, rfl⟩ := run_attempt h
    obtain ⟨houtput, hfiles⟩ := faithful.writeFile hwrite
    cases outcome with
    | error cause => exact ⟨fun _ _ => ⟨fun _ => ⟨hfiles, houtput⟩, .inl ⟨hfiles, houtput⟩⟩, by rintro ⟨⟩⟩
    | ok _ => exact ⟨by rintro _ ⟨⟩, fun _ => ⟨hfiles, houtput⟩⟩
  | none =>
    obtain ⟨outcome, hwrite, rfl⟩ := run_attempt h
    obtain ⟨hfiles, houtput⟩ := faithful.writeOutput hwrite
    cases outcome with
    | error cause =>
      refine ⟨?_, by rintro ⟨⟩⟩
      rintro _ ⟨⟩
      exact ⟨fun whole => ⟨hfiles, whole _ _ _ _ hwrite⟩, .inr ⟨rfl, rfl, hfiles, houtput⟩⟩
    | ok _ => exact ⟨by rintro _ ⟨⟩, fun _ => ⟨hfiles, houtput⟩⟩

theorem run (faithful : host.Faithful held) {result : Except Error Unit}
    (h : (command.run host).run.run s = (result, s')) :
    (∀ error, result = .error error →
      (host.WholeOutput held → (held s).Untouched (held s')) ∧
        ((held s).Untouched (held s') ∨ ∃ text, command.Renders (held s) text ∧
          command.BreaksOff text error (held s) (held s'))) ∧
      (result = .ok () → ∃ text, command.Renders (held s) text ∧
        command.Delivers text (held s) (held s')) := by
  rcases run_bind_cases h with ⟨error, hrender, rfl⟩ | ⟨text, rendered, hrender, hdeliver⟩
  · have huntouched := (faithful.render hrender).1
    exact ⟨fun _ _ => ⟨fun _ => huntouched, .inl huntouched⟩, by rintro ⟨⟩⟩
  · obtain ⟨huntouched, hrenders⟩ := faithful.render hrender
    obtain ⟨hfails, hdelivers⟩ := faithful.deliver hdeliver
    refine ⟨fun error herror => ⟨?_, ?_⟩, fun hok => ?_⟩
    · intro whole
      exact huntouched.trans ((hfails error herror).1 whole)
    · refine (hfails error herror).2.imp huntouched.trans fun hbroken => ?_
      exact ⟨text, hrenders text rfl, huntouched.breaksOff hbroken⟩
    · exact ⟨text, hrenders text rfl, huntouched.delivers (hdelivers hok)⟩

end Host.Faithful

theorem Host.decode_eq_ok_iff {bytes : ByteArray} {text : String} :
    decode bytes = .ok text ↔ bytes = text.toUTF8 := by
  unfold decode String.fromUTF8?
  by_cases hvalid : bytes.IsValidUTF8
  · simp only [dif_pos hvalid, Except.ok.injEq]
    constructor
    · rintro rfl
      rfl
    · rintro rfl
      rfl
  · simp only [dif_neg hvalid, reduceCtorEq, false_iff]
    rintro rfl
    exact hvalid text.isValidUTF8

namespace Workdir

def held (workdir : Workdir) : Holdings where
  file path := workdir.files.lookup path
  input := workdir.input
  output := workdir.output

theorem run_writeFile (limit : Option Nat) (workdir : Workdir) (path text : String) :
    ((host limit).writeFile path text).run workdir =
      match workdir.writeFile path text with
      | .ok after => (.ok (), after)
      | .error error => (.error error, workdir) := by
  simp only [host, StateT.run_bind, StateT.run_get, pure_bind]
  cases workdir.writeFile path text with
  | ok after => rfl
  | error error => rfl

theorem held_of_writeFile {workdir after : Workdir} {path text : String}
    (h : workdir.writeFile path text = .ok after) :
    after.held.output = workdir.held.output ∧
      after.held.file = Function.update workdir.held.file path (some text.toUTF8) := by
  unfold writeFile at h
  split at h
  · cases h
  · obtain rfl := Except.ok.inj h
    refine ⟨rfl, funext fun other => ?_⟩
    by_cases hother : other = path
    · subst hother
      simp [held, Entries.lookup_put_self]
    · simp [held, hother, Entries.lookup_put_of_ne hother]

theorem held_of_writeOutput {limit : Option Nat} {workdir after : Workdir} {bytes : ByteArray}
    {result : Except FileError Unit} (h : writeOutput limit workdir bytes = (result, after)) :
    after.held.file = workdir.held.file ∧
      Sent bytes workdir.held.output after.held.output result := by
  unfold writeOutput at h
  generalize limit.map (· - workdir.output.size) = room at h
  simp only at h
  split at h
  · obtain ⟨rfl, rfl⟩ := Prod.mk.inj h
    exact ⟨rfl, rfl⟩
  · rename_i hroom
    obtain ⟨rfl, rfl⟩ := Prod.mk.inj h
    cases room with
    | none => exact absurd rfl hroom
    | some room =>
      have hle : room ≤ bytes.size := by
        simp only [Option.all_some, decide_eq_true_iff] at hroom
        omega
      refine ⟨rfl, bytes.extract 0 room, bytes.extract room bytes.size, ?_, rfl⟩
      rw [← ByteArray.extract_eq_extract_append_extract room (Nat.zero_le _) hle,
        ByteArray.extract_zero_size]

theorem faithful (limit : Option Nat) : (host limit).Faithful held where
  readFile := by
    intro path s s' result h
    obtain ⟨rfl, rfl⟩ := Prod.mk.inj h
    refine ⟨rfl, fun text htext => ?_⟩
    unfold Workdir.readFile at htext
    split at htext
    · cases htext
    · split at htext
      · rename_i bytes hbytes
        rw [← Host.decode_eq_ok_iff.mp htext]
        exact hbytes
      · cases htext
  readInput := by
    intro s s' result h
    obtain ⟨rfl, rfl⟩ := Prod.mk.inj h
    exact ⟨⟨rfl, rfl⟩, fun text => Host.decode_eq_ok_iff.mp⟩
  writeFile := by
    intro path text s s' result h
    rw [run_writeFile] at h
    split at h
    · rename_i after hwrite
      obtain ⟨rfl, rfl⟩ := Prod.mk.inj h
      exact held_of_writeFile hwrite
    · obtain ⟨rfl, rfl⟩ := Prod.mk.inj h
      exact ⟨rfl, rfl⟩
  writeOutput := by
    intro text s s' result h
    exact held_of_writeOutput h
  writeError := by
    intro text s s' h
    obtain ⟨-, rfl⟩ := Prod.mk.inj h
    rfl

end Workdir

/-- A standard output that is closed after two bytes has taken these when the command fails. -/
example :
    let before : Workdir := { files := [("page", "new".toUTF8)] }
    let performed := (Invocation.perform (Workdir.host (some 2)) ["process", "page"]).run before
    performed.1 = 1 ∧ performed.2.files = before.files ∧ performed.2.output = "ne".toUTF8 :=
  ⟨rfl, rfl, rfl⟩

end EdgeTemplate
