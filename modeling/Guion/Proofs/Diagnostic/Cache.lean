import Guion.Diagnostic.Formatter

/-!
# Guion.Proofs.Diagnostic.Cache — the texts that a formatter knows

A formatter reads a file once and then writes from the text it has. Between two changes of the files
this cannot be seen from what it writes, and over such changes a text that is known stays known. The
files are any disk: what it gives for a name is not bound to what it gives for another, or to what
it gave before.

Everything that reads files makes the formatter know more texts of the same disk and nothing else.
That is `Grown disk f g`; what a formatter writes is the same before and after.

* `Disk.Has`, `Disk.Lacks` — files that can be read, and files that cannot;
* `load_cases` — all that an attempt to load a file can do;
* `Grown.load_eq`, `Grown.format_eq` — what is read and written does not depend on what is known;
* `grown_load`, `grown_format`, `grown_formatAll` — reading and writing is growing;
* `Session`, `Action` — a formatter at work while the files change, and what it is asked;
* `Session.known_step`, `Session.known_run` — where a known text comes from, for one action and for
  many;
* `Session.stable_retriable_transparent` — the statement about all sessions.
-/

namespace Guion

/-! ## Disks

A disk is any function from names, so nothing relates what it says of two names, or of one name at
two times. A file without a name is never looked for. -/

namespace Disk

variable {disk : Disk Text.Raw} {file : String} {text : Text.Raw}

/-- The file has a name, and the disk has this text for it. -/
def Has (disk : Disk Text.Raw) (file : String) (text : Text.Raw) : Prop :=
  file ≠ "" ∧ disk file = .ok text

/-- The file has no name, or the disk fails to read it. -/
def Lacks (disk : Disk Text.Raw) (file : String) : Prop :=
  file = "" ∨ ∃ e, disk file = .error e

theorem has_or_lacks (disk : Disk Text.Raw) (file : String) :
    (∃ text, disk.Has file text) ∨ disk.Lacks file := by
  by_cases hempty : file = ""
  · exact .inr (.inl hempty)
  · cases hread : disk file with
    | ok text => exact .inl ⟨text, hempty, hread⟩
    | error e => exact .inr (.inr ⟨e, hread⟩)

theorem Has.not_lacks (h : disk.Has file text) : ¬disk.Lacks file := by
  rintro (hempty | ⟨e, hread⟩)
  · exact h.1 hempty
  · cases h.2.symm.trans hread

end Disk

namespace Formatter

variable {disk : Disk Text.Raw} {f g : Formatter} {file : String} {text : Text.Raw}

/-! ## Loading

Loading has three ends: the text is known, or it is read and then known, or there is none and
nothing changes. There is none if the file cannot be read, or if it has no name. -/

/-- A text that is known is what loading gives. -/
theorem load_of_lookup (disk : Disk Text.Raw) (h : f.sources.lookup file = some text) :
    f.load disk file = (.ok text, f) := by
  rw [load, h]

theorem load_of_has (h : f.sources.lookup file = none) (hhas : disk.Has file text) :
    f.load disk file = (.ok text, f.addSource file text) := by
  rw [load, h]
  simp only [if_neg hhas.1, hhas.2]

theorem load_of_lacks (h : f.sources.lookup file = none) (hlacks : disk.Lacks file) :
    ∃ e, f.load disk file = (.error e, f) := by
  rw [load, h]
  by_cases hempty : file = ""
  · exact ⟨.unnamed, if_pos hempty⟩
  · obtain ⟨e, hread⟩ := hlacks.resolve_left hempty
    exact ⟨.unreadable e, by simp only [if_neg hempty, hread]⟩

/-- Loading gives a text that is known, or one of the disk that is then known, or fails and changes
nothing. -/
theorem load_cases (disk : Disk Text.Raw) (f : Formatter) (file : String) :
    (∃ text, f.sources.lookup file = some text ∧ f.load disk file = (.ok text, f))
      ∨ (∃ text, f.sources.lookup file = none ∧ disk.Has file text
          ∧ f.load disk file = (.ok text, f.addSource file text))
      ∨ ∃ e, f.sources.lookup file = none ∧ disk.Lacks file
          ∧ f.load disk file = (.error e, f) := by
  cases h : f.sources.lookup file with
  | some text => exact .inl ⟨text, rfl, load_of_lookup disk h⟩
  | none =>
    rcases disk.has_or_lacks file with ⟨text, hhas⟩ | hlacks
    · exact .inr (.inl ⟨text, rfl, hhas, load_of_has h hhas⟩)
    · obtain ⟨e, hload⟩ := load_of_lacks h hlacks
      exact .inr (.inr ⟨e, rfl, hlacks, hload⟩)

theorem lookup_addSource_self (f : Formatter) (file : String) (text : Text.Raw) :
    (f.addSource file text).sources.lookup file = some text :=
  List.lookup_cons_self

theorem lookup_addSource_ne {other : String} (h : file ≠ other) (f : Formatter) (text : Text.Raw) :
    (f.addSource other text).sources.lookup file = f.sources.lookup file := by
  rw [addSource, List.lookup_cons, beq_eq_false_iff_ne.mpr h]

/-- What loading gives is known afterwards. -/
theorem lookup_of_load_ok (h : (f.load disk file).1 = .ok text) :
    (f.load disk file).2.sources.lookup file = some text := by
  obtain ⟨_, hknown, hload⟩ | ⟨_, _, _, hload⟩ | ⟨_, _, _, hload⟩ := load_cases disk f file <;>
    rw [hload] at h ⊢ <;> cases h
  · exact hknown
  · exact lookup_addSource_self f file text

/-- Loading fails for a text that is neither known nor on the disk. -/
theorem load_error_iff : (∃ e, (f.load disk file).1 = .error e)
    ↔ f.sources.lookup file = none ∧ disk.Lacks file := by
  constructor
  · rintro ⟨e, h⟩
    obtain ⟨_, _, hload⟩ | ⟨_, _, _, hload⟩ | ⟨_, hnone, hlacks, _⟩ := load_cases disk f file
    · rw [hload] at h
      cases h
    · rw [hload] at h
      cases h
    · exact ⟨hnone, hlacks⟩
  · rintro ⟨hnone, hlacks⟩
    obtain ⟨e, hload⟩ := load_of_lacks hnone hlacks
    exact ⟨e, congrArg Prod.fst hload⟩

/-- Loading that fails changes nothing. -/
theorem load_snd_of_error {e : SourceError} (h : (f.load disk file).1 = .error e) :
    (f.load disk file).2 = f := by
  obtain ⟨hnone, hlacks⟩ := load_error_iff.mp ⟨e, h⟩
  obtain ⟨_, hload⟩ := load_of_lacks hnone hlacks
  rw [hload]

/-! ## Growing

A formatter only ever adds texts, and adds those of the disk that it reads from. Two formatters of
which one has grown from the other load every file alike, which is all that writing asks of them. -/

/-- The second formatter knows what the first one does, and otherwise only texts of the disk. -/
structure Grown (disk : Disk Text.Raw) (f g : Formatter) : Prop where
  options_eq : g.options = f.options
  retains : ∀ {file text}, f.sources.lookup file = some text → g.sources.lookup file = some text
  introduces : ∀ {file text}, f.sources.lookup file = none → g.sources.lookup file = some text →
    disk.Has file text

namespace Grown

theorem refl : Grown disk f f where
  options_eq := rfl
  retains h := h
  introduces hnone hsome := nomatch hnone.symm.trans hsome

theorem trans {k : Formatter} (h₁ : Grown disk f g) (h₂ : Grown disk g k) : Grown disk f k where
  options_eq := h₂.options_eq.trans h₁.options_eq
  retains h := h₂.retains (h₁.retains h)
  introduces {file text} hnone hsome := by
    cases h : g.sources.lookup file with
    | none => exact h₂.introduces h hsome
    | some known =>
      obtain rfl : known = text := Option.some.inj ((h₂.retains h).symm.trans hsome)
      exact h₁.introduces hnone h

/-- A text of the disk becomes known. -/
theorem addSource (hnone : f.sources.lookup file = none) (hhas : disk.Has file text) :
    Grown disk f (f.addSource file text) where
  options_eq := rfl
  retains {other known} h := by
    have hne : other ≠ file := by
      rintro rfl
      cases hnone.symm.trans h
    rw [lookup_addSource_ne hne, h]
  introduces {other known} h hknown := by
    by_cases hne : other = file
    · subst hne
      rw [lookup_addSource_self] at hknown
      cases hknown
      exact hhas
    · rw [lookup_addSource_ne hne, h] at hknown
      cases hknown

/-- Loading gives the same text before and after. -/
theorem load_eq (h : Grown disk f g) (file : String) :
    (g.load disk file).1 = (f.load disk file).1 := by
  cases hf : f.sources.lookup file with
  | some text => rw [load_of_lookup disk hf, load_of_lookup disk (h.retains hf)]
  | none =>
    cases hg : g.sources.lookup file with
    | some text => rw [load_of_lookup disk hg, load_of_has hf (h.introduces hf hg)]
    | none =>
      rw [load, load, hf, hg]
      dsimp only
      split
      · rfl
      · cases disk file <;> rfl

end Grown

theorem grown_load (disk : Disk Text.Raw) (f : Formatter) (file : String) :
    Grown disk f (f.load disk file).2 := by
  obtain ⟨text, _, hload⟩ | ⟨text, hnone, hhas, hload⟩ | ⟨_, _, _, hload⟩ := load_cases disk f file
  · rw [hload]
    exact .refl
  · rw [hload]
    exact .addSource hnone hhas
  · rw [hload]
    exact .refl

/-! ## Writing

Rows depend on the formatter through its options and through what loading gives, and the formatter
that is left is the one that loading leaves. The rows and the formatter are followed apart. -/

section Writing

variable (disk f) (d : Diagnostic)

theorem fileRows_snd (file : String) : (f.fileRows disk d file).2 = (f.load disk file).2 := by
  unfold fileRows
  split <;> rename_i h <;> rw [h]

/-- The rows of a file depend on the formatter's options and on what loading the file gives. -/
theorem fileRows_fst (file : String) :
    (f.fileRows disk d file).1 = match (f.load disk file).1 with
      | .ok text => Excerpt.rows f.options.contextLines file text
          ((shownLabels d).filter (·.span.file = file))
      | .error _ => [ownPlace d] := by
  have hoptions := (grown_load disk f file).options_eq
  unfold fileRows
  split <;> rename_i h
  · rw [h] at hoptions ⊢
    rw [← hoptions]
  · rw [h]

theorem grown_filesRows (files : List String) : Grown disk f (f.filesRows disk d files).2 := by
  induction files generalizing f with
  | nil => exact .refl
  | cons file files ih =>
    have hfirst : Grown disk f (f.fileRows disk d file).2 := by
      rw [fileRows_snd]
      exact grown_load disk f file
    exact hfirst.trans (ih (f.fileRows disk d file).2)

theorem grown_format : Grown disk f (f.format disk d).2 :=
  grown_filesRows disk f d _

theorem grown_formatAll (ds : List Diagnostic) : Grown disk f (f.formatAll disk ds).2 := by
  induction ds generalizing f with
  | nil => exact .refl
  | cons d ds ih =>
    cases ds with
    | nil => exact grown_format disk f d
    | cons => exact (grown_format disk f d).trans (ih (f.format disk d).2)

end Writing

namespace Grown

theorem fileRows_eq (h : Grown disk f g) (d : Diagnostic) (file : String) :
    (g.fileRows disk d file).1 = (f.fileRows disk d file).1 := by
  rw [fileRows_fst, fileRows_fst, h.load_eq, h.options_eq]

theorem filesRows_eq (h : Grown disk f g) (d : Diagnostic) (files : List String) :
    (g.filesRows disk d files).1 = (f.filesRows disk d files).1 := by
  induction files generalizing f g with
  | nil => rfl
  | cons file files ih =>
    -- the formatters after the first file need not know the same, but have grown from the same
    have hf : Grown disk f (f.fileRows disk d file).2 := grown_filesRows disk f d [file]
    have hg : Grown disk f (g.fileRows disk d file).2 := h.trans (grown_filesRows disk g d [file])
    show (g.fileRows disk d file).1 ++ ((g.fileRows disk d file).2.filesRows disk d files).1
      = (f.fileRows disk d file).1 ++ ((f.fileRows disk d file).2.filesRows disk d files).1
    rw [h.fileRows_eq, ih hf, ih hg]

/-- A diagnostic is written in the same way before and after. -/
theorem format_eq (h : Grown disk f g) (d : Diagnostic) :
    (g.format disk d).1 = (f.format disk d).1 := by
  show ofRows (header d :: (g.filesRows disk d _).1 ++ helpRows g.options d)
    = ofRows (header d :: (f.filesRows disk d _).1 ++ helpRows f.options d)
  rw [h.filesRows_eq, h.options_eq]

end Grown

/-- Diagnostics are written one by one, with a line feed between any two. -/
theorem formatAll_fst (disk : Disk Text.Raw) (f : Formatter) (ds : List Diagnostic) :
    (f.formatAll disk ds).1
      = .join ((ds.map fun d => (f.format disk d).1).intersperse ("\n" : String)) := by
  induction ds generalizing f with
  | nil => rfl
  | cons d ds ih =>
    cases ds with
    | nil => exact (Text.Raw.join_singleton _).symm
    | cons d' ds =>
      have hsame : (fun d' => ((f.format disk d).2.format disk d').1)
          = fun d' => (f.format disk d').1 :=
        funext (grown_format disk f d).format_eq
      show (f.format disk d).1 ++ ("\n" : String)
        ++ ((f.format disk d).2.formatAll disk (d' :: ds)).1 = _
      rw [ih, hsame, List.map_cons, List.map_cons, List.map_cons, List.intersperse_cons_cons,
        Text.Raw.join_cons, Text.Raw.join_cons, Text.Raw.append_assoc]

/-- What is written for a diagnostic ends with a line feed. -/
theorem format_ends (disk : Disk Text.Raw) (f : Formatter) (d : Diagnostic) :
    ∃ body : Text.Raw, (f.format disk d).1 = body ++ ("\n" : String) := by
  show ∃ body : Text.Raw, ofRows (f.rows disk d).1 = body ++ ("\n" : String)
  have hne : (f.rows disk d).1 ≠ [] := List.cons_ne_nil _ _
  rw [← List.dropLast_concat_getLast hne, ofRows, List.map_append, Text.Raw.join_append]
  refine ⟨.join ((f.rows disk d).1.dropLast.map (· ++ ("\n" : String)))
    ++ (f.rows disk d).1.getLast hne, ?_⟩
  rw [List.map_singleton, Text.Raw.join_singleton, Text.Raw.append_assoc]

/-! ## A formatter at work

The disk belongs to the session and changes in it. Between two changes the formatter grows; over a
change only what is known stays. -/

/-- A formatter and the files around it. -/
structure Session where
  disk : Disk Text.Raw
  formatter : Formatter

/-- What can happen to a formatter and to the files. -/
inductive Action where
  | addSource (file : String) (text : Text.Raw)
  | load (file : String)
  | format (d : Diagnostic)
  | formatAll (ds : List Diagnostic)
  /-- The files change, by writing, removing or anything else, and are now those of `disk`. -/
  | change (disk : Disk Text.Raw)

/-- The action makes a text that of the file. -/
def Action.Gives (file : String) : Action → Prop
  | addSource other _ => other = file
  | load _ | format _ | formatAll _ | change _ => False

/-- The action only reads files, if it looks at them at all. -/
def Action.Reads : Action → Prop
  | load _ | format _ | formatAll _ => True
  | addSource _ _ | change _ => False

namespace Session

/-- What loading a file gives. -/
def load (s : Session) (file : String) : Except SourceError Text.Raw × Formatter :=
  s.formatter.load s.disk file

/-- What is written for a diagnostic. -/
def format (s : Session) (d : Diagnostic) : Text.Raw :=
  (s.formatter.format s.disk d).1

/-- What is written for several diagnostics. -/
def formatAll (s : Session) (ds : List Diagnostic) : Text.Raw :=
  (s.formatter.formatAll s.disk ds).1

def step (s : Session) : Action → Session
  | .addSource file text => { s with formatter := s.formatter.addSource file text }
  | .load file => { s with formatter := (s.formatter.load s.disk file).2 }
  | .format d => { s with formatter := (s.formatter.format s.disk d).2 }
  | .formatAll ds => { s with formatter := (s.formatter.formatAll s.disk ds).2 }
  | .change disk => { s with disk := disk }

def run (s : Session) (actions : List Action) : Session :=
  actions.foldl step s

/-- The text of a file, if it is known. -/
def known? (s : Session) (file : String) : Option Text.Raw :=
  s.formatter.sources.lookup file

variable {s : Session} {a : Action} {actions : List Action} {file : String}
  {text : Text.Raw}

/-- Reading leaves the files as they are and the formatter grown. -/
theorem grown_step (h : a.Reads) :
    (s.step a).disk = s.disk ∧ Grown s.disk s.formatter (s.step a).formatter := by
  cases a with
  | load file => exact ⟨rfl, grown_load s.disk s.formatter file⟩
  | format d => exact ⟨rfl, grown_format s.disk s.formatter d⟩
  | formatAll ds => exact ⟨rfl, grown_formatAll s.disk s.formatter ds⟩
  | addSource | change => cases h

theorem grown_run (h : ∀ a ∈ actions, a.Reads) :
    (s.run actions).disk = s.disk
      ∧ Grown s.disk s.formatter (s.run actions).formatter := by
  induction actions generalizing s with
  | nil => exact ⟨rfl, .refl⟩
  | cons a actions ih =>
    obtain ⟨ha, hactions⟩ := List.forall_mem_cons.mp h
    obtain ⟨hdisk, hgrown⟩ := grown_step (s := s) ha
    obtain ⟨hdisk', hgrown'⟩ := ih (s := s.step a) hactions
    rw [hdisk] at hdisk' hgrown'
    exact ⟨hdisk', hgrown.trans hgrown'⟩

/-- Unless the file is given a text, an action leaves the text that is known, and if none is, makes
known no other than the text that the file has. -/
theorem known_step (h : ¬a.Gives file) :
    (s.known? file = some text → (s.step a).known? file = some text)
      ∧ (s.known? file = none → (s.step a).known? file = some text →
          s.disk.Has file text) := by
  have hgrown (hreads : a.Reads) := (grown_step (s := s) hreads).2
  cases a with
  | addSource other given =>
    have hne : file ≠ other := fun hsame => h hsame.symm
    have hsame : (s.step (.addSource other given)).known? file = s.known? file :=
      lookup_addSource_ne hne s.formatter given
    rw [hsame]
    exact ⟨id, fun hnone hsome => nomatch hnone.symm.trans hsome⟩
  | load | format | formatAll => exact ⟨(hgrown trivial).retains, (hgrown trivial).introduces⟩
  | change disk => exact ⟨id, fun hnone hsome => nomatch hnone.symm.trans hsome⟩

/-- A known text stays known until the file is given another. -/
theorem known_run (h : ∀ a ∈ actions, ¬a.Gives file) (hknown : s.known? file = some text) :
    (s.run actions).known? file = some text := by
  induction actions generalizing s with
  | nil => exact hknown
  | cons a actions ih =>
    obtain ⟨ha, hactions⟩ := List.forall_mem_cons.mp h
    exact ih hactions ((known_step ha).1 hknown)

/-- A file without a known text stays without one as long as it cannot be read. -/
theorem unknown_run (h : ∀ a ∈ actions, ¬a.Gives file)
    (hlacks : ∀ i < actions.length, (s.run (actions.take i)).disk.Lacks file)
    (hknown : s.known? file = none) : (s.run actions).known? file = none := by
  induction actions generalizing s with
  | nil => exact hknown
  | cons a actions ih =>
    obtain ⟨ha, hactions⟩ := List.forall_mem_cons.mp h
    have hfirst : s.disk.Lacks file := hlacks 0 (Nat.zero_lt_succ _)
    have hstep : (s.step a).known? file = none := by
      cases hnew : (s.step a).known? file with
      | none => rfl
      | some text => exact absurd hfirst ((known_step ha).2 hknown hnew).not_lacks
    exact ih hactions (fun i hi => hlacks (i + 1) (Nat.succ_lt_succ hi)) hstep

/-! ## What can be relied on

Each of the three statements below is about any session and any actions after it, so it can be used
again at every later time. -/

/-- A text becomes known when it is given or loaded, and is then what loading gives, without a look
at the files, until the file is given another text. -/
structure Stable (s : Session) : Prop where
  given : ∀ file text, (s.step (.addSource file text)).known? file = some text
  loaded : ∀ file text, (s.load file).1 = .ok text →
    (s.step (.load file)).known? file = some text
  kept : ∀ file text actions, s.known? file = some text → (∀ a ∈ actions, ¬a.Gives file) →
    (s.run actions).load file = (.ok text, (s.run actions).formatter)

/-- An attempt to load fails if the text is not known and the file cannot be read. It leaves nothing
behind: whatever is done until the file can be read, it is then loaded. -/
structure Retriable (s : Session) : Prop where
  fails_iff : ∀ file, (∃ e, (s.load file).1 = .error e)
    ↔ s.known? file = none ∧ s.disk.Lacks file
  unchanged : ∀ file e, (s.load file).1 = .error e → s.step (.load file) = s
  recovers : ∀ file text actions, s.known? file = none → (∀ a ∈ actions, ¬a.Gives file) →
    (∀ i < actions.length, (s.run (actions.take i)).disk.Lacks file) →
    (s.run actions).disk.Has file text →
    ((s.run actions).load file).1 = .ok text

/-- What is written for a diagnostic does not depend on what was loaded or written before, and
diagnostics together are written as each of them alone, with an empty line between any two. -/
structure Transparent (s : Session) : Prop where
  same : ∀ actions d, (∀ a ∈ actions, a.Reads) → (s.run actions).format d = s.format d
  ends : ∀ d, ∃ body : Text.Raw, s.format d = body ++ ("\n" : String)
  all : ∀ ds, s.formatAll ds = .join ((ds.map s.format).intersperse ("\n" : String))

theorem stable (s : Session) : s.Stable where
  given := lookup_addSource_self s.formatter
  loaded _ _ h := lookup_of_load_ok h
  kept _ _ _ hknown h := load_of_lookup _ (known_run h hknown)

theorem retriable (s : Session) : s.Retriable where
  fails_iff _ := load_error_iff
  unchanged file e h := by
    show { s with formatter := (s.load file).2 } = s
    rw [load, load_snd_of_error h]
  recovers _ _ _ hknown h hlacks hhas :=
    congrArg Prod.fst (load_of_has (unknown_run h hlacks hknown) hhas)

theorem transparent (s : Session) : s.Transparent where
  same actions d h := by
    obtain ⟨hdisk, hgrown⟩ := grown_run (s := s) h
    rw [format, hdisk]
    exact hgrown.format_eq d
  ends d := format_ends s.disk s.formatter d
  all ds := formatAll_fst s.disk s.formatter ds

/-- The texts that a formatter knows are stable, a failed attempt leaves nothing behind, and what is
known cannot be seen from what is written. -/
theorem stable_retriable_transparent (s : Session) : s.Stable ∧ s.Retriable ∧ s.Transparent :=
  ⟨stable s, retriable s, transparent s⟩

/-- A file that is missing at first, then written with a stray byte in it, and removed again after
it was loaded. -/
theorem stable_retriable_transparent_removed :
    let missing : Disk Text.Raw := fun file => .error ⟨"open " ++ file, true⟩
    let text : Text.Raw := ⟨[.char 'x', .stray 0xff]⟩
    let there : Disk Text.Raw := fun file => if file = "/tmp/a.lpp" then .ok text else missing file
    let s : Session := ⟨missing, .ofOptions {}⟩
    let written := s.run [.load "/tmp/a.lpp", .load "", .change there]
    let removed := (written.step (.load "/tmp/a.lpp")).run [.change missing, .load "/tmp/a.lpp"]
    (∃ e, (s.load "/tmp/a.lpp").1 = .error e)
      ∧ (written.load "/tmp/a.lpp").1 = .ok text
      ∧ removed.disk.Lacks "/tmp/a.lpp"
      ∧ (removed.load "/tmp/a.lpp").1 = .ok text := by
  intro missing text there s written removed
  have hlacks : missing.Lacks "/tmp/a.lpp" := .inr ⟨_, rfl⟩
  have hhas : there.Has "/tmp/a.lpp" text := ⟨by decide, rfl⟩
  obtain ⟨_, hretriable, _⟩ := stable_retriable_transparent s
  obtain ⟨hstable, _, _⟩ := stable_retriable_transparent written
  obtain ⟨hstable', _, _⟩ := stable_retriable_transparent (written.step (.load "/tmp/a.lpp"))
  have hload : (written.load "/tmp/a.lpp").1 = .ok text := by
    refine hretriable.recovers "/tmp/a.lpp" text _ rfl ?_ ?_ hhas
    · simp [Action.Gives]
    · intro i hi
      have hi : i < 3 := hi
      have hcases : i = 0 ∨ i = 1 ∨ i = 2 := by omega
      rcases hcases with rfl | rfl | rfl <;> exact hlacks
  have hkept : removed.load "/tmp/a.lpp" = (.ok text, removed.formatter) :=
    hstable'.kept "/tmp/a.lpp" text _ (hstable.loaded "/tmp/a.lpp" text hload)
      (by simp [Action.Gives])
  exact ⟨(hretriable.fails_iff "/tmp/a.lpp").mpr ⟨rfl, hlacks⟩, hload, hlacks,
    congrArg Prod.fst hkept⟩

end Session

end Formatter

end Guion
