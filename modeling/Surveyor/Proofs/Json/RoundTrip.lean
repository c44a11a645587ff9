import Surveyor.Proofs.Json.Spacing
import Surveyor.Proofs.Json.Relaxed
import Surveyor.Proofs.Json.Written
import Surveyor.Proofs.Value.Merge

/-! # Documents that are read back

An object of the kinds the format has itself (`Native`) is read back from its document as it was written
(`readObject?_document`). What stands behind a written value tells where it ends, so the steps of the
reader are found from the outside inwards, one for each member.
-/

namespace Surveyor

namespace Json

variable {t : Text} {level i j : Nat} {after : List Char}

/-- Made of what the format has itself: null, truth values, integers that are not too long, strings,
arrays, and objects whose keys differ from each other. -/
inductive Native : Value → Prop
  | null : Native .null
  | bool (b : Bool) : Native (.bool b)
  | int {n : Int} (few : (Nat.toDigits 10 n.natAbs).length ≤ maxDigits) : Native (.int n)
  | str (s : String) : Native (.str s)
  | list {items : List Value} (each : ∀ item ∈ items, Native item) : Native (.list items)
  | map {entries : Entries} (distinct : (Entries.keys entries).Nodup)
      (each : ∀ entry ∈ entries, Native entry.2) : Native (.map entries)

/-! ## Between the members -/

theorem dropWhile_newline (level : Nat) (rest : List Char) :
    ((newline level).toList ++ rest).dropWhile isJsonBlank = rest.dropWhile isJsonBlank := by
  have blank : ∀ c ∈ (newline level).toList, isJsonBlank c = true := by
    intro c member
    have written : (newline level).toList = '\n' :: List.replicate (2 * level) ' ' := by simp [newline]
    rw [written, List.mem_cons] at member
    rcases member with rfl | member
    · rfl
    · rw [List.eq_of_mem_replicate member]
      rfl
  rw [List.dropWhile_append_of_pos blank]

/-- Behind a member either the collection is closed on a line of its own … -/
theorem skip_newline {c : Char} (behind : t.toList.drop i = (newline level).toList ++ c :: after)
    (solid : isJsonBlank c = false) : t[skip t i]? = some c ∧ t.toList.drop (skip t i + 1) = after := by
  have there : t.toList.drop (skip t i) = c :: after := by
    rw [drop_skip, behind, dropWhile_newline, List.dropWhile_cons_of_neg (by simp [solid])]
  exact ⟨Text.getElem?_of_drop there, Text.drop_succ there⟩

/-- … or a comma stands at once, and the next member on a line of its own. -/
theorem skip_separator (behind : t.toList.drop i = ("," ++ newline level).toList ++ after)
    (solid : after.dropWhile isJsonBlank = after) :
    t[skip t i]? = some ',' ∧ t.toList.drop (skip t (skip t i + 1)) = after := by
  have there : t.toList.drop (skip t i) = ',' :: ((newline level).toList ++ after) := by
    rw [drop_skip, behind, String.toList_append, List.append_assoc]
    rfl
  refine ⟨Text.getElem?_of_drop there, ?_⟩
  rw [drop_skip, Text.drop_succ there, dropWhile_newline, solid]

theorem toList_intercalate_cons_cons (separator first second : String) (rest : List String) :
    (separator.intercalate (first :: second :: rest)).toList
      = first.toList ++ (separator.toList ++ (separator.intercalate (second :: rest)).toList) := by
  simp only [String.toList_intercalate, List.map_cons, List.intercalate_cons_cons, List.append_assoc]

/-- Written without a blank in front, whatever follows. -/
def Solid (s : String) : Prop :=
  ∀ more : List Char, (s.toList ++ more).dropWhile isJsonBlank = s.toList ++ more

theorem Solid.of_head? {s : String} {c : Char} (first : s.toList.head? = some c)
    (solid : isJsonBlank c = false) : Solid s := by
  intro more
  obtain ⟨tail, written⟩ := List.head?_eq_some_iff.mp first
  rw [written, List.cons_append, List.dropWhile_cons_of_neg (by simp [solid])]

theorem Solid.intercalate {first : String} (solid : Solid first) (separator : String)
    (rest : List String) : Solid (separator.intercalate (first :: rest)) := by
  intro more
  cases rest with
  | nil => simpa using solid more
  | cons second rest =>
    rw [toList_intercalate_cons_cons, List.append_assoc]
    exact solid _

theorem toList_enclose (opening closing : String) (level : Nat) {parts : List String}
    (nonempty : parts ≠ []) (after : List Char) :
    (enclose opening closing level parts).toList ++ after
      = opening.toList ++ ((newline (level + 1)).toList
        ++ ((("," ++ newline (level + 1)).intercalate parts).toList
          ++ ((newline level).toList ++ (closing.toList ++ after)))) := by
  have filled : parts.isEmpty = false := by simpa using nonempty
  rw [enclose, filled, if_neg Bool.false_ne_true]
  simp only [String.toList_append, List.append_assoc]

/-- The first member of a collection stands on a line of its own. -/
theorem skip_opened {c : Char} (left : t.toList.drop i = c :: ((newline level).toList ++ after))
    (solid : after.dropWhile isJsonBlank = after) :
    t[i]? = some c ∧ t.toList.drop (skip t (i + 1)) = after := by
  refine ⟨Text.getElem?_of_drop left, ?_⟩
  rw [drop_skip, Text.drop_succ left, dropWhile_newline, solid]

/-- An empty collection is closed at once. -/
theorem skip_empty {c d : Char} (left : t.toList.drop i = c :: d :: after)
    (solid : isJsonBlank d = false) :
    t[i]? = some c ∧ t[skip t (i + 1)]? = some d ∧ t.toList.drop (skip t (i + 1) + 1) = after := by
  have there : t.toList.drop (skip t (i + 1)) = d :: after := by
    rw [drop_skip, Text.drop_succ left, List.dropWhile_cons_of_neg (by simp [solid])]
  exact ⟨Text.getElem?_of_drop left, Text.getElem?_of_drop there, Text.drop_succ there⟩

/-! ## Values -/

/-- A value that is read back wherever it is written. -/
def ReadBack (v : Value) : Prop :=
  ∀ {t : Text} {level i : Nat} {after : List Char},
    t.toList.drop i = (writeValue level v).toList ++ after → after.head?.any isWordChar = false →
    ∃ j, Reads t (.value v) i j ∧ t.toList.drop j = after

/-- The reader starts with the first character of a value. -/
theorem ReadBack.solid {v : Value} (readBack : ReadBack v) (level : Nat) :
    Solid (writeValue level v) := by
  obtain ⟨j, reads, -⟩ := @readBack (Text.ofString (writeValue level v)) level 0 []
    (by simp [Text.ofString]) rfl
  obtain ⟨c, here, first⟩ := reads.start
  rw [Text.getElem?_eq_head?] at here
  refine Solid.of_head? (by simpa [Text.ofString] using here) (isJsonBlank_of_startsToken ?_)
  rcases first with opens | letter
  · simp only [opensValue, Bool.or_eq_true, beq_iff_eq] at opens
    rcases opens with (rfl | rfl) | rfl <;> rfl
  · simp [startsToken, letter]

/-- What follows a member does not belong to a word. -/
theorem any_head?_newline (level : Nat) (rest : List Char) :
    ((newline level).toList ++ rest).head?.any isWordChar = false := by
  simp [newline]
  decide

theorem any_head?_separator (level : Nat) (rest : List Char) :
    (("," ++ newline level).toList ++ rest).head?.any isWordChar = false := by
  rw [String.toList_append, List.append_assoc]
  rfl

theorem reads_items {items : List Value} {outer : Nat} {found : List Value} (nonempty : items ≠ [])
    (each : ∀ item ∈ items, ReadBack item)
    (left : t.toList.drop i = (("," ++ newline level).intercalate (writeItems level items)).toList
      ++ ((newline outer).toList ++ ']' :: after)) :
    ∃ j, Reads t (.items found (.list (found.reverse ++ items))) i j
      ∧ t.toList.drop j = after := by
  induction items generalizing i found with
  | nil => exact absurd rfl nonempty
  | cons item rest inductionHypothesis =>
    obtain ⟨readBack, eachRest⟩ := List.forall_mem_cons.mp each
    rw [writeItems] at left
    cases rest with
    | nil =>
      rw [writeItems, String.intercalate_singleton] at left
      obtain ⟨k, reads, behind⟩ := readBack left (any_head?_newline _ _)
      obtain ⟨closes, ended⟩ := skip_newline behind rfl
      refine ⟨skip t k + 1, ?_, ended⟩
      simpa using @Reads.lastItem _ _ _ found _ reads closes
    | cons next rest =>
      have readBackNext : ReadBack next := eachRest next List.mem_cons_self
      have solid := (readBackNext.solid level).intercalate ("," ++ newline level)
        (writeItems level rest)
      rw [writeItems, toList_intercalate_cons_cons, List.append_assoc, List.append_assoc] at left
      obtain ⟨k, reads, behind⟩ := readBack left (any_head?_separator _ _)
      obtain ⟨comma, further⟩ := skip_separator behind (solid _)
      obtain ⟨j, readsRest, ended⟩ := @inductionHypothesis _ (item :: found) (by simp) eachRest further
      refine ⟨j, ?_, ended⟩
      simpa using Reads.nextItem reads comma readsRest

/-- The key of an entry and its colon are passed, up to the value. -/
theorem reads_key {key written : String} (solid : Solid written)
    (left : t.toList.drop i = (literal key ++ ": " ++ written).toList ++ after) :
    ∃ k, t[i]? = some '"' ∧ stringAt t i = .ok (key, k) ∧ t[skip t k]? = some ':'
      ∧ t.toList.drop (skip t (skip t k + 1)) = written.toList ++ after := by
  rw [String.toList_append, String.toList_append, List.append_assoc, List.append_assoc] at left
  obtain ⟨quote, k, read, behind⟩ := stringAt_of_literal left
  have colon : t.toList.drop (skip t k) = ':' :: ' ' :: (written.toList ++ after) := by
    rw [drop_skip, behind]
    rfl
  refine ⟨k, quote, read, Text.getElem?_of_drop colon, ?_⟩
  rw [drop_skip, Text.drop_succ colon, List.dropWhile_cons_of_pos rfl, solid]

theorem Solid.entry (key written : String) : Solid (literal key ++ ": " ++ written) :=
  Solid.of_head? (c := '"') (by simp [literal]) rfl

theorem reads_entries {entries found : Entries} {outer : Nat} (nonempty : entries ≠ [])
    (distinct : (Entries.keys (found ++ entries)).Nodup)
    (each : ∀ entry ∈ entries, ReadBack entry.2)
    (left : t.toList.drop i = (("," ++ newline level).intercalate (writeEntries level entries)).toList
      ++ ((newline outer).toList ++ '}' :: after)) :
    ∃ j, Reads t (.entries found (.map (found ++ entries))) i j ∧ t.toList.drop j = after := by
  induction entries generalizing i found with
  | nil => exact absurd rfl nonempty
  | cons entry rest inductionHypothesis =>
    obtain ⟨key, v⟩ := entry
    obtain ⟨readBack, eachRest⟩ := List.forall_mem_cons.mp each
    have solid : Solid (writeValue level v) := readBack.solid level
    -- A fresh key is entered behind the others, so the entries keep their order.
    have fresh : key ∉ Entries.keys found := by
      rw [Entries.keys, List.map_append, List.nodup_append] at distinct
      intro member
      exact distinct.2.2 key member key List.mem_cons_self rfl
    rw [writeEntries] at left
    cases rest with
    | nil =>
      rw [writeEntries, String.intercalate_singleton] at left
      obtain ⟨afterKey, quote, readKey, colon, value⟩ := reads_key solid left
      obtain ⟨k, reads, behind⟩ := readBack value (any_head?_newline _ _)
      obtain ⟨closes, ended⟩ := skip_newline behind rfl
      refine ⟨skip t k + 1, ?_, ended⟩
      rw [← Entries.insert_of_fresh fresh]
      exact .lastEntry quote readKey colon reads closes
    | cons next rest =>
      rw [writeEntries, toList_intercalate_cons_cons, List.append_assoc, List.append_assoc] at left
      obtain ⟨afterKey, quote, readKey, colon, value⟩ := reads_key solid left
      obtain ⟨k, reads, behind⟩ := readBack value (any_head?_separator _ _)
      have solidRest := (Solid.entry next.1 (writeValue level next.2)).intercalate ("," ++ newline level)
        (writeEntries level rest)
      obtain ⟨comma, further⟩ := skip_separator behind (solidRest _)
      have distinctRest : (Entries.keys ((found ++ [(key, v)]) ++ next :: rest)).Nodup := by
        rwa [List.append_assoc, List.singleton_append]
      obtain ⟨j, readsRest, ended⟩ := inductionHypothesis (by simp) distinctRest eachRest further
      refine ⟨j, ?_, ended⟩
      rw [List.append_assoc, List.singleton_append] at readsRest
      rw [← Entries.insert_of_fresh fresh] at readsRest
      exact .nextEntry quote readKey colon reads comma readsRest

theorem readBack_list {items : List Value} (each : ∀ item ∈ items, ReadBack item) :
    ReadBack (.list items) := by
  intro t level i after left ends
  rw [writeValue] at left
  cases items with
  | nil =>
    have empty : (enclose "[" "]" level []).toList = ['[', ']'] := by simp [enclose]
    rw [writeItems, empty] at left
    obtain ⟨bracket, closes, ended⟩ := skip_empty left rfl
    exact ⟨_, .emptyArray bracket closes, ended⟩
  | cons item rest =>
    have readBack : ReadBack item := each item List.mem_cons_self
    have solid := (readBack.solid (level + 1)).intercalate ("," ++ newline (level + 1))
      (writeItems (level + 1) rest)
    rw [writeItems, toList_enclose "[" "]" level (List.cons_ne_nil _ _)] at left
    obtain ⟨bracket, behind⟩ := skip_opened left (solid _)
    obtain ⟨j, reads, ended⟩ := @reads_items _ _ _ _ _ level [] (by simp) each behind
    exact ⟨j, .array bracket reads, ended⟩

theorem readBack_map {entries : Entries} (distinct : (Entries.keys entries).Nodup)
    (each : ∀ entry ∈ entries, ReadBack entry.2) : ReadBack (.map entries) := by
  intro t level i after left ends
  rw [writeValue] at left
  cases entries with
  | nil =>
    have empty : (enclose "\x7b" "\x7d" level []).toList = ['{', '}'] := by simp [enclose]
    rw [writeEntries, empty] at left
    obtain ⟨brace, closes, ended⟩ := skip_empty left rfl
    exact ⟨_, .emptyObject brace closes, ended⟩
  | cons entry rest =>
    have solid := (Solid.entry entry.1 (writeValue (level + 1) entry.2)).intercalate
      ("," ++ newline (level + 1)) (writeEntries (level + 1) rest)
    rw [writeEntries, toList_enclose "\x7b" "\x7d" level (List.cons_ne_nil _ _)] at left
    obtain ⟨brace, behind⟩ := skip_opened left (solid _)
    obtain ⟨j, reads, ended⟩ := @reads_entries _ _ _ _ _ [] level (by simp) distinct each behind
    exact ⟨j, .object brace reads, ended⟩

theorem reads_word {word : List Char} {v : Value} (nonempty : word ≠ [])
    (isWord : ∀ c ∈ word, isWordChar c = true) (left : t.toList.drop i = word ++ after)
    (read : scalarAt t i = .ok (v, i + word.length)) :
    ∃ j, Reads t (.value v) i j ∧ t.toList.drop j = after := by
  obtain ⟨c, rest, rfl⟩ := List.exists_cons_of_ne_nil nonempty
  have letter := isWord c List.mem_cons_self
  have plain : opensValue c = false := by
    simp only [opensValue, Bool.or_eq_false_iff, beq_eq_false_iff_ne]
    refine ⟨⟨?_, ?_⟩, ?_⟩
    all_goals
      rintro rfl
      cases letter
  exact ⟨_, .scalar (Text.getElem?_of_drop left) plain read, Text.drop_of_append left⟩

/-- A name is read as in a text of its own. -/
theorem reads_name {name : String} {v : Value} (nonempty : name.toList ≠ [])
    (isWord : ∀ c ∈ name.toList, isWordChar c = true)
    (own : scalarAt (Text.ofString name) 0 = .ok (v, name.toList.length))
    (left : t.toList.drop i = name.toList ++ after) (ends : after.head?.any isWordChar = false) :
    ∃ j, Reads t (.value v) i j ∧ t.toList.drop j = after := by
  have same : SameWord name.toList [] after (Text.ofString name) 0 t i :=
    ⟨isWord, by simp [Text.ofString], left, rfl, ends⟩
  obtain ⟨n, -, -, length, read⟩ := same.scalar own
  rw [Nat.zero_add] at length
  exact reads_word nonempty isWord left (length ▸ read)

/-- Every value of these kinds is read back. -/
theorem Native.readBack {v : Value} (native : Native v) : ReadBack v := by
  induction native with
  | null =>
    intro t level i after left ends
    exact @reads_name _ _ _ "null" _ (by decide) (List.all_eq_true.mp (by decide)) rfl left ends
  | bool b =>
    intro t level i after left ends
    cases b with
    | false =>
      exact @reads_name _ _ _ "false" _ (by decide) (List.all_eq_true.mp (by decide)) rfl left ends
    | true =>
      exact @reads_name _ _ _ "true" _ (by decide) (List.all_eq_true.mp (by decide)) rfl left ends
  | @int n few =>
    intro t level i after left ends
    have nonempty : (writeValue level (.int n)).toList ≠ [] := by
      rw [writeValue, toList_toString]
      exact List.append_ne_nil_of_right_ne_nil _ Nat.toDigits_ne_nil
    exact reads_word nonempty isWordChar_of_int left (scalarAt_of_int left ends few)
  | str s =>
    intro t level i after left _
    obtain ⟨quote, j, read, ended⟩ := stringAt_of_literal left
    exact ⟨j, .string quote read, ended⟩
  | list _ inductionHypothesis => exact readBack_list inductionHypothesis
  | map distinct _ inductionHypothesis => exact readBack_map distinct inductionHypothesis

/-! ## Documents -/

/-- An object of these kinds is read back from its document. -/
theorem readObject?_document {entries : Entries} (native : Native (.map entries)) :
    readObject? (Text.ofString (document (.map entries))) = some entries := by
  rw [readObject?_eq_some_iff, readText_eq_ok_iff]
  have readBack : ReadBack (.map entries) := native.readBack
  have start : (Text.ofString (document (.map entries)))[0]? = some '{' := by
    rw [document, writeValue, enclose]
    split <;> simp [Text.ofString]
  have spelled : (Text.ofString (document (.map entries))).toList.drop
      (skip (Text.ofString (document (.map entries))) 0)
        = (writeValue 0 (.map entries)).toList ++ ['\n'] := by
    rw [drop_skip, ← readBack.solid 0]
    simp [Text.ofString, document]
  obtain ⟨j, reads, ended⟩ := readBack spelled rfl
  refine ⟨by rw [start]; decide, j, reads, ?_⟩
  -- Only the final line break is left.
  have nothing : (Text.ofString (document (.map entries))).toList.drop
      (skip (Text.ofString (document (.map entries))) j) = [] := by
    rw [drop_skip, ended]
    rfl
  have beyond := List.drop_eq_nil_iff.mp nothing
  rw [Array.length_toList] at beyond
  exact Nat.le_antisymm (skipBlanks_le reads.bounds.2) beyond

/-- Quotes, escapes, control characters and line separators in a key and a string, integers of both
signs, empty collections and those that are not. -/
def spelledOut : Entries :=
  [("\"\\/\u0001\u2028", .list [.int (-10), .int 0, .list [], .map [], .null, .bool true]),
    ("", .map [("\x7f\n", .str "é\t\x7b\x22")])]

theorem spelledOut_read :
    readObject? (Text.ofString (document (.map spelledOut))) = some spelledOut := by
  have list : Native (.list [.int (-10), .int 0, .list [], .map [], .null, .bool true]) := by
    refine .list ?_
    simp only [List.forall_mem_cons]
    exact ⟨.int (by decide), .int (by decide), .list (by simp), .map (by simp [Entries.keys]) (by simp),
      .null, .bool true, by simp⟩
  have map : Native (.map [("\x7f\n", .str "é\t\x7b\x22")]) :=
    .map (by decide) (List.forall_mem_singleton.mpr (.str _))
  have native : Native (.map spelledOut) :=
    .map (by decide) (List.forall_mem_cons.mpr ⟨list, List.forall_mem_singleton.mpr map⟩)
  exact readObject?_document native

end Json

end Surveyor
