import Surveyor.Proofs.Json.Spacing

/-! # Relaxed documents are read like the documents

Reading with comments and trailing commas extends reading without them: a document with blanks,
comments and trailing commas inserted between its tokens is read as the same object
(`readRelaxedObject?_of_relaxed`). The tokens of a document are the ones that the reader goes through,
so every document that is read consists of them, and nothing is inserted into a string literal.
-/

namespace Surveyor.Json

variable {t : Text} {i j : Nat}

/-! ## Documents consist of tokens -/

/-- What consists of tokens and blanks comes from itself by inserting nothing. -/
def Lexed (chars : List Char) : Prop := ∀ ended, Relaxed true ended chars chars

theorem Lexed.of_dropWhile {chars : List Char} (lexed : Lexed (chars.dropWhile isJsonBlank)) :
    Lexed chars := by
  induction chars with
  | nil => exact lexed
  | cons c chars inductionHypothesis =>
    by_cases blank : isJsonBlank c = true
    · rw [List.dropWhile_cons_of_pos blank] at lexed
      exact fun ended => .blank blank (inductionHypothesis lexed ended)
    · rwa [List.dropWhile_cons_of_neg blank] at lexed

theorem Lexed.of_skip (lexed : Lexed (t.toList.drop (skip t i))) : Lexed (t.toList.drop i) := by
  rw [drop_skip] at lexed
  exact lexed.of_dropWhile

theorem Lexed.token {token rest : List Char} (lexed : Lexed rest) (isToken : Token token rest) :
    Lexed (token ++ rest) :=
  fun _ => .token isToken (lexed _)

theorem Lexed.sign {c : Char} (lexed : Lexed (t.toList.drop (i + 1))) (here : t[i]? = some c)
    (sign : isSign c = true) : Lexed (t.toList.drop i) := by
  rw [Text.drop_eq_cons here]
  exact lexed.token (.sign sign)

theorem Lexed.string {s : String} (lexed : Lexed (t.toList.drop j)) (quote : t[i]? = some '"')
    (read : stringAt t i = .ok (s, j)) : Lexed (t.toList.drop i) := by
  obtain ⟨tail, closed, spelled, -⟩ := stringAt_literal quote read
  rw [spelled]
  exact lexed.token (.literal closed)

/-- In front of what consists of tokens the reader goes through tokens. -/
theorem Reads.lexed {part : Part} (reads : Reads t part i j)
    (boundary : (t.toList.drop j).head?.any isWordChar = false) (lexed : Lexed (t.toList.drop j)) :
    Lexed (t.toList.drop i) := by
  induction reads with
  | string quote read => exact lexed.string quote read
  | scalar here plain read =>
    obtain ⟨letters, nonempty, all, spelled, -⟩ := scalarAt_word read boundary
    rw [spelled]
    exact lexed.token (.word nonempty all boundary)
  | emptyObject brace closes | emptyArray brace closes =>
    exact (lexed.sign closes (by decide)).of_skip.sign brace (by decide)
  | object brace inside inductionHypothesis | array brace inside inductionHypothesis =>
    exact (inductionHypothesis boundary lexed).of_skip.sign brace (by decide)
  | lastItem item closes inductionHypothesis =>
    exact inductionHypothesis (boundary_of_sign closes (by decide)) (lexed.sign closes (by decide)).of_skip
  | nextItem item comma rest ofItem ofRest =>
    exact ofItem (boundary_of_sign comma (by decide))
      ((ofRest boundary lexed).of_skip.sign comma (by decide)).of_skip
  | lastEntry quote readKey colon value closes inductionHypothesis =>
    have entry := inductionHypothesis (boundary_of_sign closes (by decide))
      (lexed.sign closes (by decide)).of_skip
    exact (entry.of_skip.sign colon (by decide)).of_skip.string quote readKey
  | nextEntry quote readKey colon value comma rest ofValue ofRest =>
    have entry := ofValue (boundary_of_sign comma (by decide))
      ((ofRest boundary lexed).of_skip.sign comma (by decide)).of_skip
    exact (entry.of_skip.sign colon (by decide)).of_skip.string quote readKey

theorem lexed_of_readText {v : Value} (read : readText t = .ok v) : Lexed t.toList := by
  obtain ⟨-, j, reads, atEnd⟩ := readText_eq_ok_iff.mp read
  have ended : t.toList.drop (skip t j) = [] := List.drop_eq_nil_of_le (by simp [atEnd])
  have boundary := boundary_of_skip (show t[skip t j]?.any isWordChar = false by
    rw [Text.getElem?_eq_head?, ended]; rfl)
  have nothing : Lexed (t.toList.drop (skip t j)) := by
    rw [ended]
    exact fun _ => .done
  have start : Lexed (t.toList.drop 0) := (reads.lexed boundary nothing.of_skip).of_skip
  exact start

/-! ## Reading relaxed documents -/

/-- A document that is read consists of tokens, and so is every text that comes from it by inserting
blanks, comments and trailing commas between them, as the same object. -/
theorem readRelaxedObject?_of_relaxed (t : Text) (entries : Entries)
    (read : readObject? t = some entries) :
    Relaxed true false t.toList t.toList
      ∧ ∀ text : Text, Relaxed true false t.toList text.toList →
        readRelaxedObject? text = some entries := by
  have whole := readObject?_eq_some_iff.mp read
  refine ⟨lexed_of_readText whole false, ?_⟩
  intro text relaxed
  exact readObject?_eq_some_iff.mpr (readText_of_settled (settled_plainText relaxed) whole)

/-- A document with a comment marker behind an escaped quote. -/
def strictDocument : Text := Text.ofString "\x7b\"a\\\"//\":[1]\x7d"

/-- The same with comments that hold quotes and brackets, one of them between a comma and a bracket. -/
def relaxedDocument : Text := Text.ofString "/*\"*/\x7b\"a\\\"//\":[1,//]\n],\x7d//"

theorem strictDocument_read : readObject? strictDocument = some [("a\"//", .list [.int 1])] := by
  have one : Reads strictDocument (.value (.int 1)) 10 11 := @Reads.scalar _ 10 11 '1' _ rfl rfl rfl
  have items : Reads strictDocument (.items [] (.list [.int 1])) 10 12 :=
    @Reads.lastItem _ 10 11 [] (.int 1) one rfl
  have value : Reads strictDocument (.value (.list [.int 1])) 9 12 :=
    @Reads.array _ 9 12 _ rfl items
  have entries : Reads strictDocument (.entries [] (.map [("a\"//", .list [.int 1])])) 1 13 :=
    @Reads.lastEntry _ 1 8 12 [] _ _ rfl rfl rfl value rfl
  have object : Reads strictDocument (.value (.map [("a\"//", .list [.int 1])])) 0 13 :=
    @Reads.object _ 0 13 _ rfl entries
  exact readObject?_eq_some_iff.mpr (readText_eq_ok_iff.mpr ⟨by decide, 13, object, rfl⟩)

theorem relaxedDocument_relaxed :
    Relaxed true false strictDocument.toList relaxedDocument.toList := by
  have comment : Relaxed true true [] ['/', '/'] :=
    @Relaxed.filler true true ['/', '/'] [] [] (.line rfl (by decide) (.inl rfl)) .done
  have object : Relaxed true true ['}'] [',', '}', '/', '/'] :=
    .comma rfl (.token (.sign (c := '}') rfl) comment)
  have array : Relaxed true false [']', '}'] ['\n', ']', ',', '}', '/', '/'] :=
    @Relaxed.filler true false ['\n'] _ _ (.blank rfl) (.token (.sign (c := ']') rfl) object)
  have marked : Relaxed true true [']', '}']
      [',', '/', '/', ']', '\n', ']', ',', '}', '/', '/'] :=
    .comma rfl (@Relaxed.filler true false ['/', '/', ']'] _ _
      (.line rfl (by decide) (.inr ⟨_, rfl⟩)) array)
  have number : Token ['1'] [']', '}'] := .word (by decide) (List.forall_mem_singleton.mpr rfl) rfl
  have literal : LiteralTail ['a', '\\', '"', '/', '/', '"'] :=
    .plain (by decide) (by decide) (by decide) (.escape (by decide) (.plain (by decide) (by decide)
      (by decide) (.plain (by decide) (by decide) (by decide) .close)))
  exact @Relaxed.filler true false ['/', '*', '"', '*', '/'] _ _
    (@Filler.block true ['"'] _ rfl (by decide))
    (.token (.sign (c := '{') rfl) (.token (.literal literal) (.token (.sign (c := ':') rfl)
      (.token (.sign (c := '[') rfl) (.token number marked)))))

theorem relaxedDocument_read :
    readRelaxedObject? relaxedDocument = some [("a\"//", .list [.int 1])] :=
  (readRelaxedObject?_of_relaxed strictDocument _ strictDocument_read).2 relaxedDocument
    relaxedDocument_relaxed

end Surveyor.Json
