import Guion.Proofs.Settings.Extension
import Guion.Settings.FromYaml
import Guion.Settings.Stepwise

/-!
# Guion.Proofs.Settings.Loading — what comes of reading settings

Settings are looked at in three places: they are checked as a whole, a logger is made of them, and a
formatter. What passes the check is taken by the other two as it is. Every exit of reading hands
back settings that passed the check, or a record that nothing has been written into. So it does not
matter what a decoder wrote before it failed.

* `check_eq_ok_iff`, `Usable` — the settings that can be used;
* `Outcome.Sound`, `sound_parse`, `sound_load` — every exit;
* `load_of_names`, `load_of_not_names` — a file is read as its text is, or not at all;
* `parse_inPlace`, `load_inPlace` — reading as `Guion.Settings.Load` has it is the case of decoders
  that give settings or an error;
* `load_reliable` — all of it.
-/

namespace Guion.Settings

/-! ## Settings that can be used

The check is one function with several conditions, on which the logger and the formatter rely. That
it passes is the same as all conditions together. -/

theorem check_eq_ok_iff (s : Settings) : s.check = .ok () ↔ 0 ≤ s.diagnostics.contextLines
    ∧ Log.Level.parse? s.log.level.toString ≠ none
    ∧ s.log.format.toString ∈ ["", "text", "json"] := by
  unfold check
  split
  · rename_i hneg
    exact iff_of_false (fun h => by cases h) fun h => by omega
  · rename_i hnonneg
    split
    · rename_i hnone
      rw [Option.isNone_iff_eq_none] at hnone
      exact iff_of_false (fun h => by cases h) fun h => h.2.1 hnone
    · rename_i hsome
      rw [Option.isNone_iff_eq_none] at hsome
      split
      · rename_i hformat
        exact iff_of_true rfl ⟨by omega, hsome, hformat⟩
      · rename_i hformat
        exact iff_of_false (fun h => by cases h) fun h => hformat h.2.2

/-- Settings that everything which is made of them takes as they are. -/
structure Usable (s : Settings) : Prop where
  check : s.check = .ok ()
  logger : ∃ logger, s.logger? = .ok logger
  context : (Formatter.ofOptions s.diagnostics).options.contextLines = s.diagnostics.contextLines

theorem usable_of_check {s : Settings} (h : s.check = .ok ()) : s.Usable := by
  obtain ⟨hcontext, hsome, -⟩ := (check_eq_ok_iff s).mp h
  obtain ⟨level, hlevel⟩ := Option.ne_none_iff_exists'.mp hsome
  refine ⟨h, ⟨{ threshold := some level, style := .ofName s.log.format.toString }, ?_⟩, ?_⟩
  · rw [logger?, hlevel]
  · show max 0 s.diagnostics.contextLines = s.diagnostics.contextLines
    omega

namespace Stepwise

variable {χ ε : Type}

/-! ## Every exit

A record that a decoder has written into is handed back only after the check. -/

/-- Settings that can be used, or a failure and nothing in the record. -/
structure Outcome.Sound (o : Outcome ε) : Prop where
  usable : o.failure = none → o.settings.Usable
  zero : o.failure ≠ none → o.settings = zero

theorem sound_failed (failure : Failure ε) : (Outcome.failed failure).Sound where
  usable h := by cases h
  zero _ := rfl

theorem sound_checked (s : Settings) : (checked s : Outcome ε).Sound := by
  unfold checked
  split
  · exact sound_failed _
  · rename_i hcheck
    exact { usable := fun _ => usable_of_check hcheck, zero := fun h => absurd rfl h }

theorem sound_parse (d : Decoders χ ε) (content : χ) (format : Format) :
    (parse d content format).Sound := by
  unfold parse
  split
  · split
    · exact sound_failed _
    · exact sound_failed _
    · exact sound_checked _
  · split
    · split
      · exact sound_checked _
      · exact sound_failed _
    · exact sound_checked _
  · exact sound_failed _

/-! ## Files

A file is read only if its extension names a format, and then it is a text with a heading for its
errors. -/

/-- The outcome with a heading before what it says about a failure. -/
def Outcome.under (heading : String) (o : Outcome ε) : Outcome ε :=
  { o with failure := o.failure.map (.under heading) }

theorem sound_under {o : Outcome ε} (h : o.Sound) (heading : String) :
    (o.under heading).Sound where
  usable hnone := h.usable (Option.map_eq_none_iff.mp hnone)
  zero hsome := h.zero fun hnone => hsome (Option.map_eq_none_iff.mpr hnone)

/-- Giving up again leaves the record as it was, since there was nothing in it. -/
theorem under_of_failure {o : Outcome ε} (h : o.Sound) {failure : Failure ε}
    (hfailure : o.failure = some failure) (heading : String) :
    o.under heading = .failed (.under heading failure) := by
  obtain ⟨s, _⟩ := o
  subst hfailure
  have hzero : s = zero := h.zero (Option.some_ne_none failure)
  rw [hzero]
  rfl

section Files

variable (d : Decoders χ ε) (read : String → Except ε χ) {path : String}

/-- A path with an extension of a format is not blank. -/
theorem trim_ne_empty_of_names {format : Format} (h : format.Names path) :
    Text.trim path ≠ "" := by
  obtain ⟨stem, ext, rfl, -⟩ := h
  intro hblank
  have hdot := (Text.trim_eq_empty_iff _).mp hblank '.' (by simp)
  exact absurd hdot (by decide)

/-- A file whose extension names a format is read as its text is. -/
theorem load_of_names {format : Format} (hformat : format.Names path) : load d read path =
    match read path with
    | .error e => .failed (.under "failed to read config file: " (.outside e))
    | .ok content => (parse d content format).under ("config file " ++ path ++ ": ") := by
  have hpath := Format.ofPath?_eq_some_iff.mpr hformat
  rw [load, if_neg (trim_ne_empty_of_names hformat), hpath]
  dsimp only
  cases read path with
  | error e => rfl
  | ok content =>
    dsimp only
    split
    · rename_i s failure hparse
      have hfailure : (parse d content format).failure = some failure := by rw [hparse]
      rw [under_of_failure (sound_parse d content format) hfailure]
    · rename_i s hparse
      rw [hparse]
      rfl

/-- Without an extension of a format no file is read. -/
theorem load_of_not_names (h : ∀ format : Format, ¬format.Names path) :
    load d read path = .failed
      (if Text.trim path = "" then .emptyPath
        else .under ("config file " ++ path ++ ": ") .unsupported) := by
  have hpath : Format.ofPath? path = none :=
    Option.eq_none_iff_forall_ne_some.mpr fun format hsome =>
      h format (Format.ofPath?_eq_some_iff.mp hsome)
  rw [load, hpath]
  split <;> rfl

theorem sound_load (path : String) : (load d read path).Sound := by
  by_cases hnames : ∃ format : Format, format.Names path
  · obtain ⟨format, hformat⟩ := hnames
    rw [load_of_names d read hformat]
    cases read path with
    | error e => exact sound_failed _
    | ok content => exact sound_under (sound_parse d content format) _
  · rw [load_of_not_names d read (not_exists.mp hnames)]
    exact sound_failed _

end Files

/-! ## Decoders that give settings or an error

A decoder that leaves the record alone when it fails is one of the decoders that are allowed, so
what is said of all of them holds of `Guion.Settings.Load`. -/

/-- Writes what a decoder gives into the settings at hand. -/
def Decoders.inPlace (d : Settings.Decoders) : Decoders String (DecodeError ⊕ FileError) where
  toml text s := match d.toml text s with
    | .error e => (s, .error (.inl e))
    | .ok (s, keys) => (s, .ok keys)
  yaml text s := match d.yaml text s with
    | .error e => (s, some (.inl e))
    | .ok s => (s, none)
  isEnd _ := false

/-- The failure that a cause stands for. -/
def Failure.ofCause : Cause → Failure (DecodeError ⊕ FileError)
  | .emptyPath => .emptyPath
  | .unsupported => .unsupported
  | .unreadable e => .under "failed to read config file: " (.outside (.inr e))
  | .undecodable format e => .under (format.title ++ " parse error" ++ ": ") (.outside (.inl e))
  | .unknownKey key => .unknownKey key
  | .invalid fault => .invalid fault

/-- The failure that an error stands for. -/
def Failure.ofError (e : Error) : Failure (DecodeError ⊕ FileError) :=
  match e.subject with
  | .none => .ofCause e.cause
  | subject => .under subject.heading (.ofCause e.cause)

/-- What is handed back for settings or an error. -/
def Outcome.ofExcept : Except Error Settings → Outcome (DecodeError ⊕ FileError)
  | .ok s => { settings := s }
  | .error e => .failed (.ofError e)

theorem checked_eq (s : Settings) : checked s = .ofExcept s.checked := by
  unfold checked Settings.checked
  cases s.check <;> rfl

theorem parse_inPlace (d : Settings.Decoders) (text : String) (format : Format) :
    parse (.inPlace d) text format = .ofExcept (Settings.parse d text format) := by
  cases format with
  | toml =>
    simp only [parse, Settings.parse, Decoders.inPlace]
    cases d.toml text {} with
    | error e => rfl
    | ok decoded =>
      obtain ⟨s, keys⟩ := decoded
      cases keys with
      | nil => exact checked_eq s
      | cons key keys => rfl
  | yaml =>
    simp only [parse, Settings.parse, Decoders.inPlace]
    cases d.yaml text {} with
    | error e => rfl
    | ok s => exact checked_eq s
  | auto => rfl
  | other => rfl

/-- An error in a text has no subject yet, unless it is the format. -/
theorem subject_of_parse {d : Settings.Decoders} {text path : String} {format : Format} {e : Error}
    (hformat : format.Names path) (h : Settings.parse d text format = .error e) :
    e.subject = .none := by
  have hchecked {s : Settings} (hs : s.checked = .error e) : e.subject = .none := by
    unfold Settings.checked at hs
    split at hs <;> cases hs
    rfl
  obtain ⟨stem, ext, -, hext⟩ := hformat
  cases format with
  | toml =>
    simp only [Settings.parse] at h
    split at h
    · cases h
      rfl
    · cases h
      rfl
    · exact hchecked h
  | yaml =>
    simp only [Settings.parse] at h
    split at h
    · cases h
      rfl
    · exact hchecked h
  | auto => cases hext
  | other => cases hext

theorem load_inPlace (d : Settings.Decoders) (disk : Disk String) (path : String) :
    load (.inPlace d) (fun path => (disk path).mapError .inr) path
      = .ofExcept (Settings.load d disk path) := by
  unfold load Settings.load
  split
  · rfl
  · cases hpath : Format.ofPath? path with
    | none => rfl
    | some format =>
      dsimp only
      cases disk path with
      | error e => rfl
      | ok text =>
        simp only [Except.mapError]
        rw [parse_inPlace]
        cases hparse : Settings.parse d text format with
        | ok s => rfl
        | error e =>
          -- the error of the text gets the path as its subject in both
          have hnone := subject_of_parse (Format.ofPath?_eq_some_iff.mp hpath) hparse
          show Outcome.failed (.under _ (.ofError e)) = .failed (.under _ (.ofCause e.cause))
          rw [Failure.ofError, hnone]
          rfl

/-! ## Reading

Both ways to read, from a text and from a file, in one statement. -/

/-- Whatever decoders and files do, reading hands back settings that can be used, or a failure and
an empty record. A file is read as its text is in the format that its extension names; what is said
about a failure begins with the path. Without such an extension the files do not matter.
`Settings.parse` and `Settings.load` are cases of this: `parse_inPlace` and `load_inPlace`. -/
theorem load_reliable (d : Decoders χ ε) (words : ε → String) :
    (∀ content format, (parse d content format).Sound)
    ∧ (∀ read path, (load d read path).Sound)
    ∧ (∀ read path content, ∀ format : Format, format.Names path → read path = .ok content →
      (load d read path).settings = (parse d content format).settings
      ∧ (load d read path).failure.map (Failure.text words)
        = (parse d content format).failure.map fun failure =>
          "config file " ++ path ++ ": " ++ failure.text words)
    ∧ ∀ path, ((∀ c ∈ path.toList, Text.isBlank c) ∨ ∀ format : Format, ¬format.Names path) →
      ∃ failure, ∀ read, load d read path = .failed failure := by
  refine ⟨sound_parse d, sound_load d, ?_, ?_⟩
  · intro read path content format hformat hread
    rw [load_of_names d read hformat, hread]
    refine ⟨rfl, ?_⟩
    show ((parse d content format).failure.map (.under _)).map (Failure.text words) = _
    rw [Option.map_map]
    rfl
  · intro path hpath
    have hnames : ∀ format : Format, ¬format.Names path := by
      rcases hpath with hblank | hnames
      · exact fun format hformat =>
          trim_ne_empty_of_names hformat ((Text.trim_eq_empty_iff path).mpr hblank)
      · exact hnames
    exact ⟨_, fun read => load_of_not_names d read hnames⟩

/-- A level that nobody knows, in a file whose extension is in capitals. -/
theorem load_reliable_loud :
    (load (.inPlace .standard) (fun _ => .ok "[log]\nlevel = \"loud\"\n") "lpp.d/a.TOML").settings
      = zero
    ∧ (load (.inPlace .standard) (fun _ => .ok "[log]\nlevel = \"loud\"\n")
        "lpp.d/a.TOML").failure.map (Failure.text fun _ => "")
      = some "config file lpp.d/a.TOML: log.level: unknown log level \"loud\""
    ∧ ∃ failure, ∀ read, load (.inPlace .standard) read " \t" = .failed failure := by
  obtain ⟨-, -, hfile, hblank⟩ := load_reliable (.inPlace .standard) fun _ => ""
  have hformat : Format.toml.Names "lpp.d/a.TOML" :=
    ⟨"lpp.d/a", "TOML", by decide, by decide +kernel⟩
  obtain ⟨hsettings, hfailure⟩ := hfile (fun _ => .ok "[log]\nlevel = \"loud\"\n") _ _ _ hformat rfl
  refine ⟨?_, ?_, hblank " \t" (.inl (List.all_eq_true.mp (by decide)))⟩
  · rw [hsettings]
    decide +kernel
  · rw [hfailure]
    decide +kernel

end Stepwise

section Results

variable {d : Decoders} {s : Settings}

theorem usable_of_parse {text : String} {format : Format} (h : parse d text format = .ok s) :
    s.Usable := by
  have hsound := Stepwise.sound_parse (.inPlace d) text format
  rw [Stepwise.parse_inPlace, h] at hsound
  exact hsound.usable rfl

theorem usable_of_load {disk : Disk String} {path : String} (h : load d disk path = .ok s) :
    s.Usable := by
  have hsound := Stepwise.sound_load (.inPlace d) (fun path => (disk path).mapError .inr) path
  rw [Stepwise.load_inPlace, h] at hsound
  exact hsound.usable rfl

end Results

end Guion.Settings
