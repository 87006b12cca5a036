import Guion.Settings.Load
import Mathlib.Data.List.TakeWhile

/-!
# Guion.Proofs.Settings.Extension — which format a path names

The extension of a path is found from its end: the last component is cut off, and in it the part
from the last dot on. So a path has the extension `.ext` if it ends in that and neither a dot nor a
slash stands in `ext`. It names a format if the extension, in lower case, is one of a few words.

* `Text.trim_eq_empty_iff`, `Text.lower_eq_iff` — blank texts, and words in any letter case;
* `extension_eq_iff` — the extension, said of the whole path;
* `Names`, `ofPath?_eq_some_iff` — the format of a path.
-/

namespace Guion

namespace Text

/-- Nothing is left of a text without the white space at its ends just if it is all white space. -/
theorem trim_eq_empty_iff (s : String) : trim s = "" ↔ ∀ c ∈ s.toList, isBlank c := by
  rw [trim, dropEndWhile, String.ofList_eq_empty_iff, List.reverse_eq_nil_iff,
    List.dropWhile_eq_nil_iff]
  constructor
  · intro hrest c hc
    rw [← List.takeWhile_append_dropWhile (p := isBlank) (l := s.toList), List.mem_append] at hc
    rcases hc with hfirst | hsecond
    · exact List.mem_takeWhile_imp hfirst
    · exact hrest c (List.mem_reverse.mpr hsecond)
  · intro h c hc
    exact h c ((List.dropWhile_sublist _).mem (List.mem_reverse.mp hc))

/-- Only `i` and `k` are the lower-case form of a character beyond ASCII. -/
theorem lowerChar_eq_iff {c' : Char} (h : c' ∉ ['i', 'k', '\u0130', '\u212a']) (c : Char) :
    lowerChar c = c' ↔ c.toLower = c' := by
  simp only [List.mem_cons, List.not_mem_nil, or_false, not_or] at h
  obtain ⟨hi, hk, hdotted, hkelvin⟩ := h
  unfold lowerChar
  split
  · rename_i hc
    subst hc
    exact iff_of_false (Ne.symm hi) (Ne.symm hdotted)
  · split
    · rename_i hc
      subst hc
      exact iff_of_false (Ne.symm hk) (Ne.symm hkelvin)
    · rfl

theorem map_lowerChar_eq_iff {word : List Char}
    (h : ∀ c ∈ word, c ∉ ['i', 'k', '\u0130', '\u212a']) (cs : List Char) :
    cs.map lowerChar = word ↔ cs.map Char.toLower = word := by
  induction cs generalizing word with
  | nil => rfl
  | cons c cs ih =>
    cases word with
    | nil => exact iff_of_false (List.cons_ne_nil _ _) (List.cons_ne_nil _ _)
    | cons c' word =>
      obtain ⟨hfirst, hrest⟩ := List.forall_mem_cons.mp h
      rw [List.map_cons, List.map_cons, List.cons.injEq, List.cons.injEq, lowerChar_eq_iff hfirst,
        ih hrest]

theorem toList_toLower (s : String) : s.toLower.toList = s.toList.map Char.toLower :=
  String.toList_map

theorem lower_eq_iff {word : String} (h : ∀ c ∈ word.toList, c ∉ ['i', 'k', '\u0130', '\u212a'])
    (s : String) : lower s = word ↔ s.toLower = word := by
  rw [← String.toList_inj, ← String.toList_inj, lower, String.toList_map, toList_toLower]
  exact map_lowerChar_eq_iff h s.toList

end Text

namespace Settings.Format

/-! ## The extension

The path is looked through from its end; said forwards, the extension is what comes after the last
dot if no slash comes after that. -/

theorem takeWhile_ne_append_cons {a : Char} {before : List Char} (h : a ∉ before)
    (after : List Char) : (before ++ a :: after).takeWhile (· ≠ a) = before := by
  have hpos : ∀ b ∈ before, decide (b ≠ a) = true := fun b hb =>
    decide_eq_true fun he => h (he ▸ hb)
  rw [List.takeWhile_append_of_pos hpos, List.takeWhile_cons_of_neg (by simp), List.append_nil]

/-- The last component from its end, cut at the last dot. -/
theorem extension_of_last {path : String} {back rest : List Char}
    (hlast : path.toList.reverse.takeWhile (· ≠ '/') = back ++ '.' :: rest) (hdot : '.' ∉ back) :
    extension path = "." ++ String.ofList back.reverse := by
  have hmem : (back ++ '.' :: rest).contains '.' = true := by simp
  unfold extension
  dsimp only
  rw [hlast, if_pos hmem, takeWhile_ne_append_cons hdot, String.ofList_cons]
  rfl

/-- The extension is what follows the last dot, if no slash does. -/
theorem extension_eq_iff {path ext : String} : extension path = "." ++ ext
    ↔ (∃ stem, path = stem ++ "." ++ ext) ∧ '.' ∉ ext.toList ∧ '/' ∉ ext.toList := by
  constructor
  · intro h
    -- the last component, from its end: up to the last dot if it has one
    by_cases hmem : '.' ∈ path.toList.reverse.takeWhile (· ≠ '/')
    · obtain ⟨back, rest, hlast, hdot⟩ := List.eq_append_cons_of_mem hmem
      have hext : ext = String.ofList back.reverse := by
        rw [extension_of_last hlast hdot] at h
        exact ((String.append_right_inj ".").mp h).symm
      -- what is behind the dot is a part of the last component
      have hslash : '/' ∉ back := by
        intro hback
        have hin : '/' ∈ path.toList.reverse.takeWhile (· ≠ '/') := by
          rw [hlast]
          exact List.mem_append_left _ hback
        simpa using List.mem_takeWhile_imp hin
      obtain ⟨before, hback⟩ : ∃ before, path.toList.reverse = back ++ '.' :: before := by
        refine ⟨rest ++ path.toList.reverse.dropWhile (· ≠ '/'), ?_⟩
        rw [← List.cons_append, ← List.append_assoc, ← hlast, List.takeWhile_append_dropWhile]
      refine ⟨⟨String.ofList before.reverse, ?_⟩, ?_, ?_⟩
      · rw [← String.toList_inj, ← List.reverse_inj, hback, hext]
        simp
      · simpa [hext] using hdot
      · simpa [hext] using hslash
    · rw [extension, if_neg (by simpa using hmem)] at h
      simpa using congrArg String.toList h
  · rintro ⟨⟨stem, rfl⟩, hdot, hslash⟩
    -- neither the extension nor its dot ends the last component
    have hnone : ∀ c ∈ ext.toList.reverse ++ ['.'], decide (c ≠ '/') = true := by
      intro c hc
      rcases List.mem_append.mp hc with hext | hlast
      · exact decide_eq_true fun he => hslash (he ▸ List.mem_reverse.mp hext)
      · rw [List.mem_singleton.mp hlast]
        rfl
    have hlast : (stem ++ "." ++ ext).toList.reverse.takeWhile (· ≠ '/')
        = ext.toList.reverse ++ '.' :: stem.toList.reverse.takeWhile (· ≠ '/') := by
      have hback : (stem ++ "." ++ ext).toList.reverse
          = ext.toList.reverse ++ ['.'] ++ stem.toList.reverse := by simp
      rw [hback, List.takeWhile_append_of_pos hnone, List.append_assoc, List.singleton_append]
    rw [extension_of_last hlast (by simpa using hdot), List.reverse_reverse, String.ofList_toList]

theorem extension_eq_empty_or (path : String) :
    extension path = "" ∨ ∃ ext, extension path = "." ++ ext := by
  unfold extension
  dsimp only
  split
  · exact .inr ⟨_, String.ofList_cons⟩
  · exact .inl rfl

/-! ## The format

A word is found in any letter case. Beyond ASCII there are two characters whose lower case is an
ASCII letter, and no word has these letters. -/

/-- The extensions that name a format, in lower case. -/
def extensions : Format → List String
  | toml => ["toml"]
  | yaml => ["yaml", "yml"]
  | _ => []

/-- Whether a path ends in a dot and an extension of the format, in any letter case. -/
def Names (format : Format) (path : String) : Prop :=
  ∃ stem ext, path = stem ++ "." ++ ext ∧ ext.toLower ∈ format.extensions

/-- A word without a dot, a slash, and the letters that characters beyond ASCII go to. -/
def Plain (word : String) : Prop :=
  ∀ c ∈ word.toList, c ∉ ['.', '/', 'i', 'k', '\u0130', '\u212a']

theorem plain_of_mem_extensions {format : Format} {word : String} (h : word ∈ format.extensions) :
    Plain word := by
  have hall : (format.extensions.all fun word => word.toList.all fun c =>
      decide (c ∉ ['.', '/', 'i', 'k', '\u0130', '\u212a'])) = true := by
    cases format <;> rfl
  intro c hc
  exact of_decide_eq_true (List.all_eq_true.mp (List.all_eq_true.mp hall word h) c hc)

theorem lower_extension_eq_iff {word : String} (h : Plain word) (path : String) :
    Text.lower (extension path) = "." ++ word
      ↔ ∃ stem ext, path = stem ++ "." ++ ext ∧ ext.toLower = word := by
  have hlower (ext : String) : Text.lower ("." ++ ext) = "." ++ word ↔ ext.toLower = word := by
    have hcut : Text.lower ("." ++ ext) = "." ++ Text.lower ext := by
      rw [← String.toList_inj]
      simp [Text.lower, Text.lowerChar]
    rw [hcut, String.append_right_inj]
    exact Text.lower_eq_iff
      (fun c hc hin => h c hc (List.mem_cons_of_mem _ (List.mem_cons_of_mem _ hin))) ext
  constructor
  · intro hpath
    rcases extension_eq_empty_or path with hempty | ⟨ext, hext⟩
    · rw [hempty] at hpath
      simpa [Text.lower] using congrArg String.toList hpath
    · obtain ⟨⟨stem, hstem⟩, -⟩ := extension_eq_iff.mp hext
      rw [hext] at hpath
      exact ⟨stem, ext, hstem, (hlower ext).mp hpath⟩
  · rintro ⟨stem, ext, hpath, rfl⟩
    -- a dot or a slash in the extension would still be one in lower case
    have hfree {c : Char} (hc : c.toLower ∈ ['.', '/', 'i', 'k', '\u0130', '\u212a']) :
        c ∉ ext.toList := by
      intro hmem
      refine h c.toLower ?_ hc
      rw [Text.toList_toLower]
      exact List.mem_map_of_mem hmem
    rw [extension_eq_iff.mpr ⟨⟨stem, hpath⟩, hfree (by decide), hfree (by decide)⟩]
    exact (hlower ext).mpr rfl

theorem ofPath?_eq_some_iff {path : String} {format : Format} :
    ofPath? path = some format ↔ format.Names path := by
  constructor
  · intro h
    have hnames (word : String) (hword : word ∈ format.extensions)
        (hlower : Text.lower (extension path) = "." ++ word) : format.Names path := by
      obtain ⟨stem, ext, hpath, hext⟩ :=
        (lower_extension_eq_iff (plain_of_mem_extensions hword) path).mp hlower
      exact ⟨stem, ext, hpath, hext ▸ hword⟩
    -- the words are tried one after the other
    unfold ofPath? at h
    split at h
    · rename_i hlower
      cases h
      exact hnames "yaml" (by decide) hlower
    · rename_i hlower
      cases h
      exact hnames "yml" (by decide) hlower
    · rename_i hlower
      cases h
      exact hnames "toml" (by decide) hlower
    · cases h
  · rintro ⟨stem, ext, hpath, hext⟩
    have hlower : Text.lower (extension path) = "." ++ ext.toLower :=
      (lower_extension_eq_iff (plain_of_mem_extensions hext) path).mpr ⟨stem, ext, hpath, rfl⟩
    unfold ofPath?
    rw [hlower]
    cases format with
    | toml =>
      rw [List.mem_singleton.mp hext]
      rfl
    | yaml =>
      obtain hyaml | hyml : ext.toLower = "yaml" ∨ ext.toLower = "yml" := by
        simpa [extensions] using hext
      · rw [hyaml]
        rfl
      · rw [hyml]
        rfl
    | auto => cases hext
    | other => cases hext

end Settings.Format

end Guion
