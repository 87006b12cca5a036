import Guion.Text.Utf8

/-!
# Guion.Proofs.Text.Lines — lines of texts and of bytes

Nothing is lost when bytes are read as characters and stray bytes: written again, they are the same
bytes. And a text has the same lines whether its bytes are split at line feeds and then decoded, or
decoded first. A line feed is one byte and a part of no other encoding, so it ends even an encoding
that breaks off before it, and stray bytes stay on their line.

* `splitOn_append`, `splitOn_map` — pieces of two texts put together, and of a text shown;
* `encode_encoded?`, `Raw.toBytes_ofBytes` — bytes read and written;
* `decode_append_newline` — a line feed cuts the decoding in two;
* `Raw.lines_ofBytes` — the lines of a byte sequence.
-/

namespace Guion.Text

/-! ## Pieces

Splitting never gives an empty list, so two texts in a row can be put together at the last piece of
the first. -/

theorem exists_splitOn_eq_append {α : Type} [BEq α] (sep : α) (xs : List α) :
    ∃ above last, xs.splitOn sep = above ++ [last] := by
  obtain ⟨above, last, h⟩ :=
    (List.eq_nil_or_concat (xs.splitOn sep)).resolve_left (List.splitOn_ne_nil sep xs)
  exact ⟨above, last, by rw [h, List.concat_eq_append]⟩

/-- Where two texts meet, the last piece of the first and the first piece of the second become
one. -/
theorem splitOn_append {α : Type} [BEq α] [LawfulBEq α] {sep : α} {xs ys p q : List α}
    {ps qs : List (List α)} (hx : xs.splitOn sep = ps ++ [p]) (hy : ys.splitOn sep = q :: qs) :
    (xs ++ ys).splitOn sep = ps ++ (p ++ q) :: qs := by
  induction xs generalizing ps p with
  | nil =>
    rw [List.splitOn_nil] at hx
    obtain ⟨rfl, hp⟩ := List.append_inj' (show [] ++ [[]] = ps ++ [p] from hx) rfl
    cases hp
    exact hy
  | cons x xs ih =>
    rw [List.cons_append, List.splitOn_cons_eq_if_modifyHead]
    rw [List.splitOn_cons_eq_if_modifyHead] at hx
    obtain ⟨pre, last, hpieces⟩ := exists_splitOn_eq_append sep xs
    rw [ih hpieces]
    rw [hpieces] at hx
    by_cases h : (x == sep) = true
    · rw [if_pos h, ← List.cons_append] at hx
      obtain ⟨rfl, hlast⟩ := List.append_inj' hx rfl
      cases hlast
      rw [if_pos h, List.cons_append]
    · rw [if_neg h] at hx
      rw [if_neg h]
      -- the character joins the first piece, which may be the last one as well
      cases pre with
      | nil =>
        obtain ⟨rfl, hlast⟩ := List.append_inj' (show [] ++ [x :: last] = ps ++ [p] from hx) rfl
        cases hlast
        rfl
      | cons first pre =>
        rw [List.cons_append, List.modifyHead_cons, ← List.cons_append] at hx
        obtain ⟨rfl, hlast⟩ := List.append_inj' hx rfl
        cases hlast
        rfl

theorem length_le_of_mem_splitOn {α : Type} [BEq α] {sep : α} {xs piece : List α}
    (h : piece ∈ xs.splitOn sep) : piece.length ≤ xs.length := by
  induction xs generalizing piece with
  | nil =>
    rw [List.splitOn_nil, List.mem_singleton] at h
    exact Nat.le_of_eq (by rw [h])
  | cons x xs ih =>
    obtain ⟨first, pieces, hpieces⟩ := List.exists_cons_of_ne_nil (List.splitOn_ne_nil sep xs)
    rw [List.splitOn_cons_eq_if_modifyHead, hpieces] at h
    rw [hpieces] at ih
    rw [List.length_cons]
    split at h
    · rcases List.mem_cons.mp h with rfl | h
      · exact Nat.zero_le _
      · exact Nat.le_succ_of_le (ih h)
    · rcases List.mem_cons.mp h with rfl | h
      · exact Nat.succ_le_succ (ih List.mem_cons_self)
      · exact Nat.le_succ_of_le (ih (List.mem_cons_of_mem _ h))

/-- Replacing each entry, the separators and no others by the new separator, keeps the pieces. -/
theorem splitOn_map {α β : Type} [BEq α] [LawfulBEq α] [BEq β] [LawfulBEq β] {f : α → β} {sep : α}
    {sep' : β} (h : ∀ x, f x = sep' ↔ x = sep) (xs : List α) :
    (xs.map f).splitOn sep' = (xs.splitOn sep).map (List.map f) := by
  induction xs with
  | nil => rfl
  | cons x xs ih =>
    rw [List.map_cons, List.splitOn_cons_eq_if_modifyHead, List.splitOn_cons_eq_if_modifyHead, ih]
    by_cases hx : x = sep
    · rw [if_pos (beq_iff_eq.mpr hx), if_pos (beq_iff_eq.mpr ((h x).mpr hx))]
      rfl
    · rw [if_neg (mt beq_iff_eq.mp hx), if_neg (mt beq_iff_eq.mp (mt (h x).mp hx))]
      obtain ⟨piece, pieces, hpieces⟩ := List.exists_cons_of_ne_nil (List.splitOn_ne_nil sep xs)
      rw [hpieces]
      rfl

/-- There are at most as many separators as entries. -/
theorem length_splitOn_le {α : Type} [BEq α] (sep : α) (xs : List α) :
    (xs.splitOn sep).length ≤ xs.length + 1 := by
  induction xs with
  | nil => exact Nat.le_refl 1
  | cons x xs ih =>
    rw [List.splitOn_cons_eq_if_modifyHead, List.length_cons]
    split
    · exact Nat.succ_le_succ ih
    · rw [List.length_modifyHead]
      exact Nat.le_succ_of_le ih

namespace Raw

theorem length_lines_le (r : Raw) : r.lines.length ≤ r.length + 1 := by
  rw [lines, List.length_map]
  exact length_splitOn_le _ _

theorem length_le_of_mem_lines {r line : Raw} (h : line ∈ r.lines) : line.length ≤ r.length := by
  obtain ⟨piece, hpiece, rfl⟩ := List.mem_map.mp h
  exact length_le_of_mem_splitOn hpiece

/-- What is shown of a text has the lines of the text, shown. -/
theorem splitOn_toString (r : Raw) :
    r.toString.toList.splitOn '\n' = r.lines.map fun line => line.items.map Item.shown := by
  have hshown : ∀ item : Item, item.shown = '\n' ↔ item = .char '\n' := by
    rintro (c | byte)
    · simp [Item.shown]
    · simp [Item.shown, replacement]
  rw [toString, String.toList_ofList, splitOn_map hshown, lines, List.map_map]
  rfl

end Raw

/-! ## Bytes read and written

An encoding is checked against its parts when it is read: the bits of the lead byte, the bits of the
bytes that continue it, and the least character that needs so many bytes. So there is one encoding
of a character, and writing gives it back. -/

theorem toNat_of_scalar? {least n : Nat} {c : Char} (h : scalar? least n = some c) :
    c.toNat = n ∧ least ≤ n := by
  unfold scalar? at h
  split at h
  · rename_i hn
    cases h
    have hvalid : n.isValidChar := by
      rcases hn.2 with hlt | ⟨hgt, hlt⟩
      · exact .inl hlt
      · exact .inr ⟨by omega, hlt⟩
    refine ⟨?_, hn.1⟩
    rw [Char.ofNat, dif_pos hvalid]
    rfl
  · cases h

/-- A continuation byte is its payload above 0x80. -/
theorem eq_of_continuation? {b : UInt8} {p : Nat} (h : continuation? b = some p) :
    b = UInt8.ofNat (0x80 + p) ∧ p < 0x40 := by
  unfold continuation? at h
  split at h
  · rename_i hb
    obtain rfl := Option.some.inj h
    have hlow : 0x80 ≤ b.toNat := UInt8.le_iff_toNat_le.mp hb.1
    have hhigh : b.toNat ≤ 0xbf := UInt8.le_iff_toNat_le.mp hb.2
    refine ⟨?_, by omega⟩
    rw [Nat.add_sub_cancel' hlow, UInt8.ofNat_toNat]
  · cases h

theorem eq_of_mapM_continuation? {tail : List UInt8} {payload : List Nat}
    (h : tail.mapM continuation? = some payload) :
    tail = payload.map (fun p => UInt8.ofNat (0x80 + p)) ∧ ∀ p ∈ payload, p < 0x40 := by
  induction tail generalizing payload with
  | nil =>
    cases h
    exact ⟨rfl, List.forall_mem_nil _⟩
  | cons b tail ih =>
    rw [List.mapM_cons] at h
    obtain ⟨p, hp, h⟩ := Option.bind_eq_some_iff.mp h
    obtain ⟨rest, hrest, h⟩ := Option.bind_eq_some_iff.mp h
    cases h
    obtain ⟨htail, hlt⟩ := ih hrest
    obtain ⟨hb, hplt⟩ := eq_of_continuation? hp
    exact ⟨by rw [List.map_cons, ← hb, ← htail], List.forall_mem_cons.mpr ⟨hplt, hlt⟩⟩

/-- A byte is told by its number. -/
theorem ofNat_eq_of_toNat {b : UInt8} {n : Nat} (h : b.toNat = n) : UInt8.ofNat n = b := by
  rw [← h, UInt8.ofNat_toNat]

/-- The bytes that a character is read from are its encoding. -/
theorem encode_encoded? {lead : UInt8} {tail : List UInt8} {c : Char}
    (h : encoded? lead tail = some c) : String.utf8EncodeChar c = lead :: tail := by
  obtain ⟨payload, hpayload, hvalue⟩ := Option.bind_eq_some_iff.mp h
  obtain ⟨rfl, hlt⟩ := eq_of_mapM_continuation? hpayload
  clear h hpayload
  have hchar : c.val.toNat = c.toNat := rfl
  have hbyte := lead.toNat_lt
  rw [String.utf8EncodeChar, hchar]
  -- one case for each number of bytes; the range of the lead byte says which encoding is chosen
  match payload with
  | [] =>
    simp only [List.length_nil] at hvalue
    split at hvalue
    · rename_i hlead
      have hlead : lead.toNat < 0x80 := UInt8.lt_iff_toNat_lt.mp hlead
      obtain ⟨hc, _⟩ := toNat_of_scalar? hvalue
      rw [hc, if_pos (by omega), UInt8.ofNat_toNat]
      rfl
    · cases hvalue
  -- the least character of the form excludes the shorter encoding
  | [p] =>
    simp only [List.length_cons, List.length_nil, List.foldl_cons, List.foldl_nil] at hvalue
    split at hvalue
    · rename_i hlead
      have hlow : 0xc0 ≤ lead.toNat := UInt8.le_iff_toNat_le.mp hlead.1
      have hhigh : lead.toNat ≤ 0xdf := UInt8.le_iff_toNat_le.mp hlead.2
      have hp := hlt p (by simp)
      obtain ⟨hc, hleast⟩ := toNat_of_scalar? hvalue
      rw [hc, if_neg (by omega), if_pos (by omega)]
      simp only [List.map_cons, List.map_nil, List.cons.injEq, and_true]
      refine ⟨ofNat_eq_of_toNat (by omega), congrArg _ (by omega)⟩
    · cases hvalue
  | [p, q] =>
    simp only [List.length_cons, List.length_nil, List.foldl_cons, List.foldl_nil] at hvalue
    split at hvalue
    · rename_i hlead
      have hlow : 0xe0 ≤ lead.toNat := UInt8.le_iff_toNat_le.mp hlead.1
      have hhigh : lead.toNat ≤ 0xef := UInt8.le_iff_toNat_le.mp hlead.2
      have hp := hlt p (by simp)
      have hq := hlt q (by simp)
      obtain ⟨hc, hleast⟩ := toNat_of_scalar? hvalue
      rw [hc, if_neg (by omega), if_neg (by omega), if_pos (by omega)]
      simp only [List.map_cons, List.map_nil, List.cons.injEq, and_true]
      refine ⟨ofNat_eq_of_toNat (by omega), congrArg _ (by omega), congrArg _ (by omega)⟩
    · cases hvalue
  | [p, q, r] =>
    simp only [List.length_cons, List.length_nil, List.foldl_cons, List.foldl_nil] at hvalue
    split at hvalue
    · rename_i hlead
      have hlow : 0xf0 ≤ lead.toNat := UInt8.le_iff_toNat_le.mp hlead.1
      have hhigh : lead.toNat ≤ 0xf7 := UInt8.le_iff_toNat_le.mp hlead.2
      have hp := hlt p (by simp)
      have hq := hlt q (by simp)
      have hr := hlt r (by simp)
      obtain ⟨hc, hleast⟩ := toNat_of_scalar? hvalue
      rw [hc, if_neg (by omega), if_neg (by omega), if_neg (by omega)]
      simp only [List.map_cons, List.map_nil, List.cons.injEq, and_true]
      refine ⟨ofNat_eq_of_toNat (by omega), congrArg _ (by omega), congrArg _ (by omega),
        congrArg _ (by omega)⟩
    · cases hvalue
  | _ :: _ :: _ :: _ :: _ => simp at hvalue
theorem taken_le_length {lead : UInt8} {rest : List UInt8} {c : Char} {taken : Nat}
    (h : decodeFirst? lead rest = some (c, taken)) :
    taken ≤ rest.length ∧ encoded? lead (rest.take taken) = some c := by
  obtain ⟨n, _, hn⟩ := List.exists_of_findSome?_eq_some h
  split at hn
  · rename_i hle
    obtain ⟨c', hc', heq⟩ := Option.map_eq_some_iff.mp hn
    cases heq
    exact ⟨hle, hc'⟩
  · cases hn

theorem flatMap_toBytes_decode (bytes : List UInt8) :
    (decode bytes).flatMap Raw.Item.toBytes = bytes := by
  match bytes with
  | [] => rw [decode, List.flatMap_nil]
  | lead :: rest =>
    rw [decode]
    cases hfirst : decodeFirst? lead rest with
    | none =>
      dsimp only
      rw [List.flatMap_cons, flatMap_toBytes_decode (rest.drop 0), List.drop_zero]
      rfl
    | some found =>
      obtain ⟨c, taken⟩ := found
      dsimp only
      rw [List.flatMap_cons, flatMap_toBytes_decode (rest.drop taken)]
      show String.utf8EncodeChar c ++ rest.drop taken = lead :: rest
      rw [encode_encoded? (taken_le_length hfirst).2, List.cons_append, List.take_append_drop]
termination_by bytes.length
decreasing_by all_goals simp only [List.length_cons, List.length_drop]; omega

/-- What is read as characters and stray bytes is written as the bytes that it was. -/
theorem Raw.toBytes_ofBytes (bytes : List UInt8) : (ofBytes bytes).toBytes = bytes :=
  flatMap_toBytes_decode bytes

/-! ## Decoding at a line feed

The byte of a line feed continues no encoding. So decoding never reaches over one, whatever stands
before it. -/

/-- The byte that encodes a line feed. -/
abbrev newlineByte : UInt8 := 0x0a

theorem mapM_continuation?_of_mem {tail : List UInt8} (h : newlineByte ∈ tail) :
    tail.mapM continuation? = none := by
  induction tail with
  | nil => cases h
  | cons b tail ih =>
    rcases List.mem_cons.mp h with rfl | h
    · rfl
    · rw [List.mapM_cons, ih h]
      cases continuation? b <;> rfl

/-- No encoding reaches over a line feed. -/
theorem decodeFirst?_append_newline (lead : UInt8) (xs ys : List UInt8) :
    decodeFirst? lead (xs ++ newlineByte :: ys) = decodeFirst? lead xs := by
  unfold decodeFirst?
  congr 1
  funext n
  by_cases hn : n ≤ xs.length
  · rw [List.take_append_of_le_length hn, if_pos hn, if_pos (by rw [List.length_append]; omega)]
  · have hmem : newlineByte ∈ (xs ++ newlineByte :: ys).take n := by
      have hlt : xs.length < n := Nat.lt_of_not_le hn
      rw [List.take_append, ← Nat.succ_pred_eq_of_pos (Nat.sub_pos_of_lt hlt), List.take_succ_cons]
      exact List.mem_append_right _ List.mem_cons_self
    have hnone : encoded? lead ((xs ++ newlineByte :: ys).take n) = none := by
      rw [encoded?, mapM_continuation?_of_mem hmem]
      rfl
    rw [if_neg hn, hnone]
    split <;> rfl

theorem decode_newline (ys : List UInt8) :
    decode (newlineByte :: ys) = .char '\n' :: decode ys := by
  have hfirst : decodeFirst? newlineByte ys = some ('\n', 0) := by
    have hencoded : encoded? newlineByte [] = some '\n' := by decide
    simp [decodeFirst?, hencoded]
  rw [decode, hfirst]
  rfl

/-- A line feed cuts the decoding in two. -/
theorem decode_append_newline (xs ys : List UInt8) :
    decode (xs ++ newlineByte :: ys) = decode xs ++ .char '\n' :: decode ys := by
  match xs with
  | [] => rw [decode.eq_1, List.nil_append, List.nil_append, decode_newline]
  | lead :: rest =>
    rw [List.cons_append, decode, decode, decodeFirst?_append_newline]
    cases hfirst : decodeFirst? lead rest with
    | none =>
      have hrest := decode_append_newline rest ys
      simpa using hrest
    | some found =>
      obtain ⟨c, taken⟩ := found
      have hle := (taken_le_length hfirst).1
      have hrest := decode_append_newline (rest.drop taken) ys
      rw [← List.drop_append_of_le_length hle] at hrest
      simpa using hrest
termination_by xs.length
decreasing_by all_goals simp only [List.length_cons, List.length_drop]; omega

theorem newline_notMem_decode {xs : List UInt8} (h : newlineByte ∉ xs) :
    .char '\n' ∉ decode xs := by
  intro hmem
  -- a line feed that is read would be written as the byte, but what is written is what was given
  have hbyte : newlineByte ∈ (decode xs).flatMap Raw.Item.toBytes :=
    List.mem_flatMap.mpr ⟨_, hmem, List.mem_singleton.mpr rfl⟩
  rw [flatMap_toBytes_decode] at hbyte
  exact h hbyte

/-- The lines of a text given as bytes are its pieces between the bytes of line feeds. -/
theorem Raw.lines_ofBytes (bytes : List UInt8) :
    (ofBytes bytes).lines = (bytes.splitOn newlineByte).map ofBytes := by
  unfold lines ofBytes
  by_cases hmem : newlineByte ∈ bytes
  · obtain ⟨xs, ys, hsplit⟩ := List.append_of_mem hmem
    have hlength : bytes.length = xs.length + (ys.length + 1) := by
      rw [hsplit, List.length_append, List.length_cons]
    have hx := lines_ofBytes xs
    have hy := lines_ofBytes ys
    unfold lines ofBytes at hx hy
    dsimp only at hx hy ⊢
    rw [hsplit, decode_append_newline, List.splitOn_append_cons_self,
      List.splitOn_append_cons_self, List.map_append, List.map_append, hx, hy]
  · rw [List.splitOn_eq_singleton (newline_notMem_decode hmem), List.splitOn_eq_singleton hmem]
    rfl
termination_by bytes.length
decreasing_by all_goals omega

end Guion.Text
