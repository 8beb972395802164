/-
The expansion of the markers, one paste after another.

A text stands for pieces: single units, and markers of pastes. After the
pastes of a list have been expanded, each marker with one of their ids shows
the content of its paste, the others themselves (`Piece.shown`). One more
paste is expanded rightly (`expandPasteMarker_shown`) when its markers are
found where it has one in the pieces, and nowhere else.
-/
import OneHarness.Tui.Editor

namespace OneHarness.Tui

open Lib Lib.Replace

-- ======== what is found

theorem units_append (s t : String) : units (s ++ t) = units s ++ units t := by
  rw [units, String.toList_append, Utf16.encode_append]
  rfl

theorem after_append (word rest : Text) :
    after word (word ++ rest) = some rest := by
  rw [after, if_pos (List.prefix_append word rest), List.drop_left]

theorem after_eq_none {word text : Text} (h : ¬ word <+: text) :
    after word text = none := if_neg h

theorem isDigit_of_mem_repr {n u : Nat} (h : u ∈ units (toString n)) :
    isDigitUnit u = true := by
  rw [units, Nat.toString_eq_ofList_toDigits, String.toList_ofList] at h
  obtain ⟨c, hc, hu⟩ := List.mem_flatMap.1 h
  have hdigit := Char.isDigit_iff_toNat.1
    (Nat.isDigit_of_mem_toDigits (by decide) (by decide) hc)
  have hzero : '0'.toNat = 0x30 := rfl
  have hnine : '9'.toNat = 0x39 := rfl
  rw [hzero, hnine] at hdigit
  rw [Utf16.encodeChar, if_pos (by omega), List.mem_singleton] at hu
  rw [isDigitUnit, hu, Bool.and_eq_true, decide_eq_true_eq, decide_eq_true_eq]
  exact hdigit

theorem units_repr_ne_nil (n : Nat) : units (toString n) ≠ [] := by
  rw [units, Nat.toString_eq_ofList_toDigits, String.toList_ofList]
  intro h
  cases hd : Nat.toDigits 10 n with
  | nil => exact Nat.toDigits_ne_nil hd
  | cons c cs =>
    rw [hd, Utf16.encode_cons] at h
    have hnil := (List.append_eq_nil_iff.1 h).1
    rw [Utf16.encodeChar] at hnil
    split at hnil <;> cases hnil

theorem afterDigits_repr {n : Nat} {rest : Text}
    (hrest : (rest.head?.map isDigitUnit).getD false = false) :
    afterDigits (units (toString n) ++ rest) = some rest := by
  have hall : ∀ u ∈ units (toString n), isDigitUnit u = true :=
    fun u hu => isDigit_of_mem_repr hu
  have hdrop : (units (toString n) ++ rest).dropWhile isDigitUnit = rest := by
    rw [List.dropWhile_append_of_pos hall]
    cases rest with
    | nil => rfl
    | cons u rest =>
      have hu : isDigitUnit u = false := hrest
      rw [List.dropWhile_cons_of_neg (by rw [hu]; exact Bool.false_ne_true)]
  cases hn : units (toString n) with
  | nil => exact absurd hn (units_repr_ne_nil n)
  | cons u us =>
    rw [hn] at hall hdrop
    have hu : isDigitUnit u = true := hall u List.mem_cons_self
    rw [afterDigits, hdrop]
    exact if_pos hu

theorem afterSize_lines (n : Nat) (rest : Text) :
    afterSize (units " +" ++ (units (toString n) ++ (units " lines" ++
      (units "]" ++ rest)))) = some rest := by
  have hlines : afterLines (units " +" ++ (units (toString n) ++
      (units " lines" ++ (units "]" ++ rest)))) = some (units "]" ++ rest) := by
    rw [afterLines, after_append, Option.bind_eq_bind, Option.bind_some,
      afterDigits_repr rfl, Option.bind_some, after_append]
  rw [afterSize, hlines, Option.some_or, Option.bind_some, after_append,
    Option.some_or]

theorem afterSize_chars (n : Nat) (rest : Text) :
    afterSize (units " " ++ (units (toString n) ++ (units " chars" ++
      (units "]" ++ rest)))) = some rest := by
  have hchars : afterChars (units " " ++ (units (toString n) ++
      (units " chars" ++ (units "]" ++ rest)))) = some (units "]" ++ rest) := by
    rw [afterChars, after_append, Option.bind_eq_bind, Option.bind_some,
      afterDigits_repr rfl, Option.bind_some, after_append]
  have hlines : afterLines (units " " ++ (units (toString n) ++
      (units " chars" ++ (units "]" ++ rest)))) = none := by
    have hnone : ¬ units " +" <+: units " " ++ (units (toString n) ++
        (units " chars" ++ (units "]" ++ rest))) := by
      rintro ⟨tail, htail⟩
      cases hn : units (toString n) with
      | nil => exact units_repr_ne_nil n hn
      | cons u us =>
        have hu : isDigitUnit u = true :=
          isDigit_of_mem_repr (by rw [hn]; exact List.mem_cons_self)
        rw [hn] at htail
        have hplus : (0x2b : Nat) = u :=
          (List.cons.inj (List.cons.inj htail).2).1
        rw [← hplus] at hu
        cases hu
    rw [afterLines, after_eq_none hnone]
    rfl
  rw [afterSize, hlines, Option.none_or, hchars, Option.bind_some, after_append,
    Option.some_or]

/-- The marker of a paste is found at its start, to its end. -/
theorem pasteMarker_marker (paste : Paste) (rest : Text) :
    pasteMarker paste.id (paste.marker ++ rest)
      = some paste.marker.length := by
  have hfound : ∀ size : Text,
      paste.marker = units s!"[paste #{paste.id}" ++ size →
      afterSize (size ++ rest) = some rest →
      pasteMarker paste.id (paste.marker ++ rest)
        = some paste.marker.length := by
    intro size hmarker hsize
    rw [pasteMarker, hmarker, List.append_assoc, after_append, Option.bind_some,
      hsize, Option.map_some]
    apply congrArg some
    rw [List.length_append, List.length_append, List.length_append]
    omega
  by_cases hlines : 10 < paste.content.count newline + 1
  · apply hfound (units " +" ++
      (units (toString (paste.content.count newline + 1)) ++
        (units " lines" ++ units "]")))
    · rw [Paste.marker, if_pos hlines, ← units_append, ← units_append,
        ← units_append, ← units_append]
      have hend : " lines" ++ "]" = toString " lines]" := by decide
      rw [hend]
      simp only [String.append_assoc]
      rfl
    · rw [List.append_assoc, List.append_assoc, List.append_assoc]
      exact afterSize_lines _ rest
  · apply hfound (units " " ++ (units (toString paste.content.length) ++
      (units " chars" ++ units "]")))
    · rw [Paste.marker, if_neg hlines, ← units_append, ← units_append,
        ← units_append, ← units_append]
      have hend : " chars" ++ "]" = toString " chars]" := by decide
      rw [hend]
      simp only [String.append_assoc]
      rfl
    · rw [List.append_assoc, List.append_assoc, List.append_assoc]
      exact afterSize_chars _ rest

theorem Paste.marker_ne_nil (paste : Paste) : paste.marker ≠ [] := by
  have hword : units (toString "[paste #") ≠ [] := by decide
  rw [marker]
  split
  · rw [units_append, units_append, units_append, units_append]
    intro h
    simp only [List.append_eq_nil_iff] at h
    exact hword h.1.1.1.1
  · rw [units_append, units_append, units_append, units_append]
    intro h
    simp only [List.append_eq_nil_iff] at h
    exact hword h.1.1.1.1

theorem Paste.content_ne_nil (paste : Paste) : paste.content ≠ [] := by
  intro h
  have hlarge := paste.large
  rw [h] at hlarge
  rcases hlarge with hlines | hlength
  · exact absurd hlines (by decide)
  · exact absurd hlength (by decide)

-- ======== the pieces

namespace Piece

/-- With the content of the paste for a marker with one of these ids. -/
def shown (ids : List Nat) : Piece → Text
  | .unit u => [u]
  | .marker paste => if paste.id ∈ ids then paste.content else paste.marker

theorem shown_ne_nil (ids : List Nat) (piece : Piece) :
    piece.shown ids ≠ [] := by
  cases piece with
  | unit u => exact List.cons_ne_nil u []
  | marker paste =>
    rw [shown]
    split
    · exact paste.content_ne_nil
    · exact paste.marker_ne_nil

end Piece

theorem markerAt_spec {log : List Paste} {line : Line} {paste : Paste}
    (h : markerAt log line = some paste) :
    ∃ i, log[i]? = some paste ∧ mark i paste.marker <+: line := by
  unfold markerAt at h
  cases hhead : line.head? with
  | none =>
    rw [hhead] at h
    cases h
  | some cell =>
    rw [hhead] at h
    cases horigin : cell.origin with
    | none =>
      simp only [Option.bind_eq_bind, Option.bind_some, horigin] at h
      cases h
    | some place =>
      simp only [Option.bind_eq_bind, Option.bind_some, horigin] at h
      cases hlog : log[place.1]? with
      | none =>
        rw [hlog] at h
        cases h
      | some paste' =>
        rw [hlog, Option.bind_some] at h
        split at h
        · rename_i hprefix
          cases h
          exact ⟨place.1, hlog, hprefix⟩
        · cases h

theorem text_mark (i : Nat) (marker : Text) :
    text (mark i marker) = marker := by
  apply List.ext_getElem?
  intro j
  rw [text, List.getElem?_map, mark, List.getElem?_mapIdx]
  cases marker[j]? with
  | none => rfl
  | some u => rfl

/-- With no paste expanded the pieces show the line. -/
theorem pieces_shown (log : List Paste) (skip : Nat) (line : Line) :
    (pieces log skip line).flatMap (Piece.shown [])
      = text (line.drop skip) := by
  induction line generalizing skip with
  | nil =>
    rw [List.drop_nil]
    cases skip <;> rfl
  | cons cell rest ih =>
    cases skip with
    | succ skip =>
      rw [pieces, List.drop_succ_cons]
      exact ih skip
    | zero =>
      rw [pieces, List.drop_zero]
      cases hmarker : markerAt log (cell :: rest) with
      | none =>
        dsimp only
        rw [List.flatMap_cons, ih 0]
        rfl
      | some paste =>
        dsimp only
        rw [List.flatMap_cons, ih]
        obtain ⟨i, -, rest', heq⟩ := markerAt_spec hmarker
        have hshown : Piece.shown [] (.marker paste) = paste.marker := by
          rw [Piece.shown, if_neg List.not_mem_nil]
        have hlength : (mark i paste.marker).length
            = paste.marker.length := List.length_mapIdx
        have hdrop : rest.drop (paste.marker.length - 1) = rest' := by
          have hpos := List.length_pos_iff.2 paste.marker_ne_nil
          have hsucc : paste.marker.length
              = (paste.marker.length - 1) + 1 := by omega
          have hcons :
              (cell :: rest).drop paste.marker.length = rest' := by
            rw [← heq, ← hlength, List.drop_left]
          rw [hsucc, List.drop_succ_cons] at hcons
          exact hcons
        have htext : text (cell :: rest)
            = paste.marker ++ text rest' := by
          rw [← heq, text, List.map_append, ← text, text_mark]
          rfl
        rw [hshown, hdrop, htext]

-- ======== the expansion

variable {ps pre post pre' post' : List Piece} {piece : Piece} {paste : Paste}
  {ids : List Nat}

/-- A place within a piece is where a later split of the pieces begins only
if it is the start of that piece. -/
theorem split_unique {a : Text} (hlen : a.length < (piece.shown ids).length)
    (heq : pre ++ piece :: post = pre' ++ .marker paste :: post')
    (hplace : pre.flatMap (Piece.shown ids) ++ a
      = pre'.flatMap (Piece.shown ids)) :
    a = [] ∧ piece = .marker paste := by
  have hlength := congrArg List.length hplace
  rw [List.length_append] at hlength
  rcases List.append_eq_append_iff.1 heq with
    ⟨as, has, hrest⟩ | ⟨bs, hbs, hrest⟩
  · cases as with
    | nil =>
      rw [List.append_nil] at has
      subst has
      refine ⟨?_, (List.cons.inj hrest).1⟩
      apply List.length_eq_zero_iff.1
      omega
    | cons p as =>
      exfalso
      have hp : piece = p := (List.cons.inj hrest).1
      subst hp
      rw [has, List.flatMap_append, List.flatMap_cons, List.length_append,
        List.length_append] at hlength
      omega
  · cases bs with
    | nil =>
      rw [List.append_nil] at hbs
      subst hbs
      refine ⟨?_, (List.cons.inj hrest).1.symm⟩
      apply List.length_eq_zero_iff.1
      omega
    | cons p bs =>
      exfalso
      have hpos := List.length_pos_iff.2 (p.shown_ne_nil ids)
      rw [hbs, List.flatMap_append, List.flatMap_cons, List.length_append,
        List.length_append] at hlength
      omega

/-- What looks like a marker of this id in the pieces shown is the start of
one. -/
def FoundAtMarkers (ps : List Piece) (ids : List Nat) (pasteId : Nat) : Prop :=
  ∀ before behind, ps.flatMap (Piece.shown ids) = before ++ behind →
    (pasteMarker pasteId behind).isSome →
    ∃ pre paste post, ps = pre ++ .marker paste :: post ∧ paste.id = pasteId
      ∧ before = pre.flatMap (Piece.shown ids)

/-- The markers of this id are those of pastes with this content. -/
def ContentOf (ps : List Piece) (pasteId : Nat) (content : Text) : Prop :=
  ∀ paste, .marker paste ∈ ps → paste.id = pasteId → paste.content = content

theorem expandPasteMarker_shown {pasteId : Nat} {content : Text}
    (hnew : pasteId ∉ ids) (hfound : FoundAtMarkers ps ids pasteId)
    (hcontent : ContentOf ps pasteId content) :
    expandPasteMarker (ps.flatMap (Piece.shown ids)) (pasteId, content)
      = ps.flatMap (Piece.shown (ids ++ [pasteId])) := by
  have hall : ∀ post pre, ps = pre ++ post →
      expandPasteMarker (post.flatMap (Piece.shown ids)) (pasteId, content)
        = post.flatMap (Piece.shown (ids ++ [pasteId])) := by
    intro post
    induction post with
    | nil => exact fun _ _ => rfl
    | cons piece post ih =>
      intro pre heq
      have hrest := ih (pre ++ [piece]) (by rw [heq, List.append_assoc]; rfl)
      -- nothing is found in the piece unless it is a marker of the paste
      have hunfound : (∀ paste, piece = .marker paste → paste.id ≠ pasteId) →
          expandPasteMarker ((piece :: post).flatMap (Piece.shown ids))
              (pasteId, content)
            = piece.shown ids
              ++ post.flatMap (Piece.shown (ids ++ [pasteId])) := by
        intro hother
        rw [← hrest, List.flatMap_cons]
        apply replaceAll_unfound
        intro before behind hsplit hne
        rw [Option.map_eq_none_iff]
        cases hmatch : pasteMarker pasteId
            (behind ++ post.flatMap (Piece.shown ids)) with
        | none => rfl
        | some n =>
          exfalso
          obtain ⟨pre', paste, post', heq', hid, hplace⟩ :=
            hfound (pre.flatMap (Piece.shown ids) ++ before)
              (behind ++ post.flatMap (Piece.shown ids))
              (by rw [heq, List.flatMap_append, List.flatMap_cons, hsplit,
                List.append_assoc, List.append_assoc])
              (by rw [hmatch]; rfl)
          have hlen : before.length < (piece.shown ids).length := by
            have hpos := List.length_pos_iff.2 hne
            rw [hsplit, List.length_append]
            omega
          exact hother paste (split_unique hlen (heq.symm.trans heq')
            hplace).2 hid
      rw [List.flatMap_cons (f := Piece.shown (ids ++ [pasteId]))]
      cases piece with
      | unit u =>
        rw [hunfound nofun]
        rfl
      | marker paste =>
        by_cases hid : paste.id = pasteId
        · subst hid
          have hmem : Piece.marker paste ∈ ps := by
            rw [heq]
            exact List.mem_append_right _ List.mem_cons_self
          rw [List.flatMap_cons, Piece.shown, if_neg hnew, Piece.shown,
            if_pos (List.mem_append_right _ List.mem_cons_self),
            hcontent paste hmem rfl, ← hrest]
          apply replaceAll_found paste.marker_ne_nil
          rw [pasteMarker_marker]
          rfl
        · rw [hunfound (by rintro _ ⟨⟩; exact hid), Piece.shown,
            Piece.shown]
          congr 1
          apply if_congr _ rfl rfl
          rw [List.mem_append, List.mem_singleton]
          exact ⟨.inl, fun h => h.resolve_right hid⟩
  exact hall ps [] rfl

/-- The pastes one after another, each with what comes before it expanded. -/
theorem expandPasteMarkers_shown {pastes : JsMap Nat Text}
    (hnodup : pastes.keys.Nodup)
    (hfound : ∀ done pasteId content rest,
      pastes = done ++ (pasteId, content) :: rest →
      FoundAtMarkers ps (JsMap.keys done) pasteId)
    (hcontent : ∀ pasteId content, (pasteId, content) ∈ pastes →
      ContentOf ps pasteId content) :
    expandPasteMarkers pastes (ps.flatMap (Piece.shown []))
      = ps.flatMap (Piece.shown pastes.keys) := by
  have hall : ∀ rest done, pastes = done ++ rest →
      rest.foldl expandPasteMarker (ps.flatMap (Piece.shown (JsMap.keys done)))
        = ps.flatMap (Piece.shown pastes.keys) := by
    intro rest
    induction rest with
    | nil =>
      intro done heq
      rw [List.append_nil] at heq
      rw [heq]
      rfl
    | cons paste rest ih =>
      obtain ⟨pasteId, content⟩ := paste
      intro done heq
      have hnew : pasteId ∉ JsMap.keys done := by
        rw [heq, JsMap.keys, List.map_append, List.nodup_append] at hnodup
        intro hmem
        exact hnodup.2.2 pasteId hmem pasteId List.mem_cons_self rfl
      have hmem : (pasteId, content) ∈ pastes := by
        rw [heq]
        exact List.mem_append_right _ List.mem_cons_self
      have hkeys : JsMap.keys (done ++ [(pasteId, content)])
          = JsMap.keys done ++ [pasteId] := List.map_append
      rw [List.foldl_cons, expandPasteMarker_shown hnew
        (hfound done pasteId content rest heq)
        (hcontent pasteId content hmem), ← hkeys]
      apply ih
      rw [heq, List.append_assoc]
      rfl
  exact hall pastes [] rfl

end OneHarness.Tui
