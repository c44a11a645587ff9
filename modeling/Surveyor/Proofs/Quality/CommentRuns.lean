import Surveyor.Quality.CommentRuns

/-! # Runs of comment lines are the maximal intervals of comment lines

A run is made of lines that were taken in, so it has a line and ends at or before the last one. This
holds of the complete runs and of the one going on after every line (`CommentRun.step_within`).

Which lines are comment lines is said here without the scan: a line begins a comment, or lies in a
block comment that an earlier line has left open (`InBlock`, by recursion on the number of the
line). The scan keeps three things for every number of lines taken in (`Scanned`): whether a block
is open, the run that ends there, and the runs before it. A run that is found is therefore maximal
(`IsMaximal`), and since every comment line is covered by one, there are no others.
-/

namespace Surveyor

/-! ## Runs lie in their text -/

namespace CommentRun

/-- The run has a line, and ends before the line `number`. -/
def EndsBy (number : Nat) (run : CommentRun) : Prop :=
  1 ≤ run.length ∧ run.start + run.length ≤ number

def Within (number : Nat) (p : Progress) : Prop :=
  ∀ run ∈ p.current.toList ++ p.complete, run.EndsBy number

theorem EndsBy.later {number : Nat} {run : CommentRun} (ends : run.EndsBy number) :
    run.EndsBy (number + 1) :=
  ⟨ends.1, Nat.le_succ_of_le ends.2⟩

theorem endsBy_extend {current : Option CommentRun} {number : Nat}
    (ends : ∀ run ∈ current.toList, run.EndsBy number) : (extend current number).EndsBy (number + 1) := by
  cases current with
  | none => exact ⟨Nat.le_refl 1, Nat.le_refl (number + 1)⟩
  | some run =>
    obtain ⟨-, upTo⟩ := ends run (by simp)
    exact ⟨Nat.le_add_left 1 run.length, Nat.succ_le_succ upTo⟩

variable {hashComments : Bool} {p : Progress} {number : Nat}

/-- A run that takes the place of the one going on keeps the others. -/
theorem Within.replace (within : Within number p) {run : CommentRun} (ends : run.EndsBy (number + 1))
    (inBlock : Bool) : Within (number + 1) ⟨p.complete, some run, inBlock⟩ := by
  intro other member
  rcases List.mem_cons.mp member with rfl | complete
  · exact ends
  · exact (within other (List.mem_append_right _ complete)).later

theorem step_within (within : Within number p) (line : List Char) :
    Within (number + 1) (step hashComments p number line) := by
  have extended : (extend p.current number).EndsBy (number + 1) :=
    endsBy_extend fun run current => within run (List.mem_append_left _ current)
  unfold step
  split
  · exact within.replace extended _
  · split
    · -- Whether the run documents something does not change where it ends.
      next documentation leftOpen _ =>
      have documented : { extend p.current number with documented := documentation }.EndsBy (number + 1) :=
        extended
      exact within.replace documented leftOpen
    · exact within.replace extended _
    · split
      · next run current =>
        intro other member
        refine (within other ?_).later
        rw [current]
        exact member
      · intro other member
        exact (within other member).later

theorem advance_within (within : Within number p) (lines : List (List Char)) :
    Within (number + lines.length) (advance hashComments p number lines) := by
  induction lines generalizing p number with
  | nil => exact within
  | cons line rest inductionHypothesis =>
    rw [advance, List.length_cons, show number + (rest.length + 1) = number + 1 + rest.length by omega]
    exact inductionHypothesis (step_within within _)

/-- The runs that are found end at a line of the text. -/
theorem endsBy_of_mem_findAll {t : Text} {run : CommentRun} (member : run ∈ findAll t hashComments) :
    run.EndsBy (textLines t).length := by
  have within : Within 0 ⟨[], none, false⟩ := by simp [Within]
  have all : Within (0 + (textLines t).length) (advance hashComments ⟨[], none, false⟩ 0 (textLines t)) :=
    advance_within within (textLines t)
  rw [Nat.zero_add] at all
  exact all run (List.mem_reverse.mp member)

end CommentRun

/-! ## Runs are maximal -/

namespace CommentRun

def strippedLines (t : Text) : List (List Char) := (textLines t).map (Text.stripChars isBlank)

/-- A line that opens a block comment and does not close it. -/
def LeavesOpen (line : List Char) : Prop :=
  startsWith "/*" line = true ∧ closesBlock (line.drop 2) = false

/-- The line `i` lies in a block comment that an earlier line has left open: that line lay in no
block itself, and no line in between closes it. -/
def InBlock (lines : List (List Char)) (i : Nat) : Prop :=
  ∃ j, ∃ _ : j < i, ¬ InBlock lines j ∧ (∃ line, lines[j]? = some line ∧ LeavesOpen line)
    ∧ ∀ k line, j < k → k < i → lines[k]? = some line → closesBlock line = false
termination_by i

/-- A line that begins a comment of one of the three kinds. -/
def BeginsComment (hashComments : Bool) (line : List Char) : Prop :=
  startsWith "/*" line = true ∨ startsWith "//" line = true
    ∨ hashComments = true ∧ startsWith "#" line = true
      ∧ startsWith "#!" line = false ∧ startsWith "#[" line = false

def IsCommentLine (hashComments : Bool) (lines : List (List Char)) (i : Nat) : Prop :=
  ∃ line, lines[i]? = some line ∧ (InBlock lines i ∨ BeginsComment hashComments line)

def OpensBlockAt (lines : List (List Char)) (i : Nat) (line : List Char) : Prop :=
  lines[i]? = some line ∧ ¬ InBlock lines i ∧ startsWith "/*" line = true

/-- A block comment that is meant as documentation. -/
def OpensDocumentation (line : List Char) : Prop :=
  (startsWith "/**" line = true ∨ startsWith "/*!" line = true) ∧ startsWith "/**/" line = false

/-- The last block that is opened in an interval of lines is documentation. -/
def DocumentedIn (lines : List (List Char)) (start stop : Nat) : Prop :=
  ∃ i line, start ≤ i ∧ i < stop ∧ OpensBlockAt lines i line ∧ OpensDocumentation line
    ∧ ∀ k later, i < k → k < stop → ¬ OpensBlockAt lines k later

/-- Whether a run is documented after the line `k`: the latest block decides, and a line that opens
none changes nothing. -/
def DocumentedAfter (lines : List (List Char)) (k : Nat) (line : List Char) (before : Prop) : Prop :=
  (¬ InBlock lines k ∧ startsWith "/*" line = true ∧ OpensDocumentation line)
    ∨ ((InBlock lines k ∨ startsWith "/*" line = false) ∧ before)

/-- A run of comment lines that begins where they begin. -/
structure Fills (hashComments : Bool) (lines : List (List Char)) (run : CommentRun) : Prop where
  nonempty : 0 < run.length
  commented : ∀ i, run.start ≤ i → i < run.start + run.length → IsCommentLine hashComments lines i
  notBefore : ∀ i, i + 1 = run.start → ¬ IsCommentLine hashComments lines i
  documented : run.documented = true ↔ DocumentedIn lines run.start (run.start + run.length)

structure IsMaximal (hashComments : Bool) (lines : List (List Char)) (run : CommentRun) : Prop
    extends Fills hashComments lines run where
  notAfter : ¬ IsCommentLine hashComments lines (run.start + run.length)

section

variable {hashComments : Bool} {lines : List (List Char)} {k : Nat} {line : List Char}

/-! ## Lines -/

theorem inBlock_iff (lines : List (List Char)) (i : Nat) :
    InBlock lines i ↔ ∃ j, j < i ∧ ¬ InBlock lines j
      ∧ (∃ line, lines[j]? = some line ∧ LeavesOpen line)
      ∧ ∀ k line, j < k → k < i → lines[k]? = some line → closesBlock line = false := by
  rw [InBlock]
  simp only [exists_prop]

theorem not_inBlock_zero (lines : List (List Char)) : ¬ InBlock lines 0 := by
  rw [inBlock_iff]
  rintro ⟨j, before, -⟩
  exact absurd before (Nat.not_lt_zero j)

/-- What a line makes of the state of the blocks. -/
theorem inBlock_succ (here : lines[k]? = some line) :
    InBlock lines (k + 1)
      ↔ (InBlock lines k ∧ closesBlock line = false) ∨ (¬ InBlock lines k ∧ LeavesOpen line) := by
  constructor
  · intro inside
    obtain ⟨j, before, free, opened, unclosed⟩ := (inBlock_iff _ _).mp inside
    -- The block that is open behind the line was opened by the line itself or before it.
    by_cases same : j = k
    · subst same
      obtain ⟨opening, isThere, leaves⟩ := opened
      rw [here] at isThere
      cases isThere
      exact .inr ⟨free, leaves⟩
    · have earlier : j < k := by omega
      left
      refine ⟨(inBlock_iff _ _).mpr ⟨j, earlier, free, opened, ?_⟩, ?_⟩
      · intro between other after upTo
        exact unclosed between other after (by omega)
      · exact unclosed k line earlier (by omega) here
  · rintro (⟨inside, unclosedHere⟩ | ⟨free, leaves⟩)
    · obtain ⟨j, before, free, opened, unclosed⟩ := (inBlock_iff _ _).mp inside
      refine (inBlock_iff _ _).mpr ⟨j, by omega, free, opened, ?_⟩
      intro between other after upTo isThere
      by_cases last : between = k
      · subst last
        rw [here] at isThere
        cases isThere
        exact unclosedHere
      · exact unclosed between other after (by omega) isThere
    · refine (inBlock_iff _ _).mpr ⟨k, by omega, free, ⟨line, here, leaves⟩, ?_⟩
      intro between other after upTo
      omega

theorem isCommentLine_iff (here : lines[k]? = some line) :
    IsCommentLine hashComments lines k ↔ InBlock lines k ∨ BeginsComment hashComments line := by
  simp [IsCommentLine, here]

theorem opensBlockAt_iff (here : lines[k]? = some line) (other : List Char) :
    OpensBlockAt lines k other
      ↔ other = line ∧ ¬ InBlock lines k ∧ startsWith "/*" line = true := by
  constructor
  · rintro ⟨isThere, free, starts⟩
    rw [here] at isThere
    cases isThere
    exact ⟨rfl, free, starts⟩
  · rintro ⟨rfl, free, starts⟩
    exact ⟨here, free, starts⟩

theorem not_documentedIn_self (lines : List (List Char)) (k : Nat) : ¬ DocumentedIn lines k k := by
  rintro ⟨i, line, fromStart, upTo, -⟩
  omega

theorem documentedIn_succ {start : Nat} (fromStart : start ≤ k) (here : lines[k]? = some line) :
    DocumentedIn lines start (k + 1) ↔ DocumentedAfter lines k line (DocumentedIn lines start k) := by
  by_cases opens : ¬ InBlock lines k ∧ startsWith "/*" line = true
  · -- A block that opens on this line is the last one, whatever opened before it.
    have opensHere : OpensBlockAt lines k line := ⟨here, opens⟩
    have latest : DocumentedAfter lines k line (DocumentedIn lines start k)
        ↔ OpensDocumentation line := by
      simp [DocumentedAfter, opens.1, opens.2]
    rw [latest]
    constructor
    · rintro ⟨i, other, after, upTo, opensThere, documents, isLast⟩
      rcases Nat.lt_or_eq_of_le (Nat.le_of_lt_succ upTo) with earlier | rfl
      · exact absurd opensHere (isLast k line earlier (Nat.lt_succ_self k))
      · obtain ⟨rfl, -⟩ := (opensBlockAt_iff here other).mp opensThere
        exact documents
    · intro documents
      exact ⟨k, line, fromStart, by omega, opensHere, documents, fun later _ after upTo => by omega⟩
  · -- Without one, the last block is the one that was last before the line.
    have noneHere : ∀ other, ¬ OpensBlockAt lines k other := fun other opensThere =>
      opens ((opensBlockAt_iff here other).mp opensThere).2
    have unchanged : DocumentedAfter lines k line (DocumentedIn lines start k)
        ↔ DocumentedIn lines start k := by
      by_cases inside : InBlock lines k
      · simp [DocumentedAfter, inside]
      · have notBlock : startsWith "/*" line = false := by simpa [inside] using opens
        simp [DocumentedAfter, notBlock]
    rw [unchanged]
    constructor
    · rintro ⟨i, other, after, upTo, opensThere, documents, isLast⟩
      have earlier : i ≠ k := by
        rintro rfl
        exact noneHere other opensThere
      exact ⟨i, other, after, by omega, opensThere, documents,
        fun later text after upTo => isLast later text after (by omega)⟩
    · rintro ⟨i, other, after, upTo, opensThere, documents, isLast⟩
      refine ⟨i, other, after, by omega, opensThere, documents, ?_⟩
      intro later text afterwards upTo
      rcases Nat.lt_or_eq_of_le (Nat.le_of_lt_succ upTo) with earlier | rfl
      · exact isLast later text afterwards earlier
      · exact noneHere text

/-! ## What the scan says of a line -/

theorem lineKind_of_block (hashComments : Bool) (starts : startsWith "/*" line = true) :
    ∃ documentation, (documentation = true ↔ OpensDocumentation line)
      ∧ lineKind hashComments line = .block documentation (!closesBlock (line.drop 2)) := by
  refine ⟨(startsWith "/**" line || startsWith "/*!" line) && !startsWith "/**/" line, ?_, ?_⟩
  · simp [OpensDocumentation]
  · simp only [lineKind, starts, ↓reduceIte]

theorem lineKind_of_comment (notBlock : startsWith "/*" line = false)
    (begins : BeginsComment hashComments line) : lineKind hashComments line = .comment := by
  simp only [BeginsComment, notBlock, Bool.false_eq_true, false_or] at begins
  have said : (startsWith "//" line || (hashComments && isHashComment line)) = true := by
    simpa [isHashComment, and_assoc] using begins
  simp [lineKind, notBlock, said]

theorem lineKind_of_other (begins : ¬ BeginsComment hashComments line) :
    lineKind hashComments line = .other := by
  simp only [BeginsComment, not_or, Bool.not_eq_true] at begins
  obtain ⟨notBlock, notLine, notHash⟩ := begins
  have said : (startsWith "//" line || (hashComments && isHashComment line)) = false := by
    simpa [isHashComment, notLine, and_assoc] using notHash
  simp [lineKind, notBlock, said]

/-! ## Runs -/

/-- Two maximal intervals with a line in common are the same. -/
theorem IsMaximal.eq_of_common {run other : CommentRun} (maximal : IsMaximal hashComments lines run)
    (otherMaximal : IsMaximal hashComments lines other) {i : Nat} (fromRun : run.start ≤ i)
    (upToRun : i < run.start + run.length) (fromOther : other.start ≤ i)
    (upToOther : i < other.start + other.length) : run = other := by
  -- An interval that began inside of the other one would have a comment line before it.
  have starts : ∀ {a b : CommentRun}, IsMaximal hashComments lines a →
      IsMaximal hashComments lines b → a.start ≤ i → i < b.start + b.length → a.start ≤ b.start := by
    intro a b isA isB fromA upToB
    apply Nat.le_of_not_lt
    intro later
    exact isA.notBefore (a.start - 1) (by omega) (isB.commented _ (by omega) (by omega))
  have stops : ∀ {a b : CommentRun}, IsMaximal hashComments lines a →
      IsMaximal hashComments lines b → b.start ≤ i → i < a.start + a.length →
      b.start + b.length ≤ a.start + a.length := by
    intro a b isA isB fromB upToA
    apply Nat.le_of_not_lt
    intro further
    exact isA.notAfter (isB.commented _ (by omega) (by omega))
  have sameStart : run.start = other.start :=
    Nat.le_antisymm (starts maximal otherMaximal fromRun upToOther)
      (starts otherMaximal maximal fromOther upToRun)
  have sameStop : run.start + run.length = other.start + other.length :=
    Nat.le_antisymm (stops otherMaximal maximal fromRun upToOther)
      (stops maximal otherMaximal fromOther upToRun)
  have sameLength : run.length = other.length := by omega
  have sameDocumented : run.documented = other.documented := by
    rw [Bool.eq_iff_iff, maximal.documented, otherMaximal.documented, sameStop, sameStart]
  cases run
  cases other
  simp_all

/-- The run that goes on up to the line `k`; without one, the line before is no comment line. -/
def GoesUpTo (hashComments : Bool) (lines : List (List Char)) (k : Nat) (current : Option CommentRun) :
    Prop :=
  (∀ run ∈ current, Fills hashComments lines run ∧ run.start + run.length = k)
    ∧ (current = none → ∀ i, i + 1 = k → ¬ IsCommentLine hashComments lines i)

/-- A comment line makes the run longer, or begins a new one. -/
theorem GoesUpTo.extend {current : Option CommentRun}
    (going : GoesUpTo hashComments lines k current) (here : lines[k]? = some line)
    (commented : IsCommentLine hashComments lines k) {longer : CommentRun}
    (sameStart : longer.start = (extend current k).start)
    (sameLength : longer.length = (extend current k).length)
    (decides : longer.documented = true
      ↔ DocumentedAfter lines k line ((extend current k).documented = true)) :
    GoesUpTo hashComments lines (k + 1) (some longer) := by
  obtain ⟨fills, free⟩ := going
  refine ⟨?_, by simp⟩
  rintro _ ⟨⟩
  cases current with
  | none =>
    simp only [CommentRun.extend] at sameStart sameLength decides
    refine ⟨⟨by omega, ?_, ?_, ?_⟩, by omega⟩
    · intro i fromStart upTo
      obtain rfl : i = k := by omega
      exact commented
    · rw [sameStart]
      exact free rfl
    · -- A new run has no documentation before its first line.
      have nothing := not_documentedIn_self lines k
      rw [sameStart, sameLength, documentedIn_succ (Nat.le_refl k) here, decides]
      simp [DocumentedAfter, nothing]
  | some run =>
    obtain ⟨isRun, stop⟩ := fills run rfl
    simp only [CommentRun.extend] at sameStart sameLength decides
    refine ⟨⟨by omega, ?_, ?_, ?_⟩, by omega⟩
    · intro i fromStart upTo
      by_cases last : i = k
      · rw [last]
        exact commented
      · exact isRun.commented i (by omega) (by omega)
    · rw [sameStart]
      exact isRun.notBefore
    · rw [sameStart, sameLength, ← Nat.add_assoc, stop, documentedIn_succ (by omega) here, decides,
        isRun.documented, stop]

/-! ## The scan -/

/-- What the scan knows after the first `k` lines. -/
structure Scanned (hashComments : Bool) (lines : List (List Char)) (k : Nat) (p : Progress) :
    Prop where
  inBlock : p.inBlock = true ↔ InBlock lines k
  /-- A block is open only in a run. -/
  running : p.inBlock = true → p.current ≠ none
  going : GoesUpTo hashComments lines k p.current
  maximal : ∀ run ∈ p.complete, IsMaximal hashComments lines run
  /-- The runs lie apart, the latest first. -/
  apart : (p.current.toList ++ p.complete).Pairwise fun later earlier =>
    earlier.start + earlier.length < later.start
  before : ∀ run ∈ p.complete, run.start + run.length < k
  covered : ∀ i, i < k → IsCommentLine hashComments lines i →
    ∃ run ∈ p.current.toList ++ p.complete, run.start ≤ i ∧ i < run.start + run.length

theorem scanned_start (hashComments : Bool) (lines : List (List Char)) :
    Scanned hashComments lines 0 ⟨[], none, false⟩ where
  inBlock := by simp [not_inBlock_zero]
  running := by simp
  going := ⟨by simp, by simp⟩
  maximal := by simp
  apart := by simp
  before := by simp
  covered := fun i before => absurd before (Nat.not_lt_zero i)

/-- A comment line goes to the current run. -/
theorem Scanned.extend {p : Progress} (scanned : Scanned hashComments lines k p)
    (here : lines[k]? = some line) (commented : IsCommentLine hashComments lines k)
    {longer : CommentRun} {inBlock : Bool}
    (sameStart : longer.start = (CommentRun.extend p.current k).start)
    (sameLength : longer.length = (CommentRun.extend p.current k).length)
    (decides : longer.documented = true
      ↔ DocumentedAfter lines k line ((CommentRun.extend p.current k).documented = true))
    (blocks : inBlock = true ↔ InBlock lines (k + 1)) :
    Scanned hashComments lines (k + 1) ⟨p.complete, some longer, inBlock⟩ := by
  have going := scanned.going.extend here commented sameStart sameLength decides
  obtain ⟨isRun, stop⟩ := going.1 _ rfl
  have nonempty := isRun.nonempty
  refine ⟨blocks, by simp, going, scanned.maximal, ?_, ?_, ?_⟩
  · -- A new run starts behind all the others, and the current one keeps its start.
    have apart := scanned.apart
    cases current : p.current with
    | none =>
      simp only [current, CommentRun.extend] at sameStart
      simp only [current, Option.toList_none, List.nil_append] at apart
      simp only [Option.toList_some, List.singleton_append, List.pairwise_cons, sameStart]
      exact ⟨scanned.before, apart⟩
    | some run =>
      simp only [current, CommentRun.extend] at sameStart
      simpa [current, sameStart] using apart
  · intro run member
    exact Nat.lt_succ_of_lt (scanned.before run member)
  · intro i upTo isComment
    by_cases last : i = k
    · exact ⟨longer, by simp, by omega, by omega⟩
    · obtain ⟨run, member, fromStart, upToStop⟩ := scanned.covered i (by omega) isComment
      rcases List.mem_append.mp member with isCurrent | complete
      · -- The longer run covers what the run covered.
        have isCurrent : p.current = some run := by simpa using isCurrent
        simp only [isCurrent, CommentRun.extend] at sameStart
        exact ⟨longer, by simp, by omega, by omega⟩
      · exact ⟨run, by simp [complete], fromStart, upToStop⟩

/-- A line that is no comment line ends the current run. -/
theorem Scanned.interrupt {p : Progress} (scanned : Scanned hashComments lines k p)
    (here : lines[k]? = some line) (notCommented : ¬ IsCommentLine hashComments lines k) :
    Scanned hashComments lines (k + 1) ⟨p.current.toList ++ p.complete, none, false⟩ := by
  have free : ¬ InBlock lines k ∧ ¬ BeginsComment hashComments line := by
    rw [isCommentLine_iff here] at notCommented
    simpa using notCommented
  have opensNot : ¬ LeavesOpen line := fun leaves => free.2 (.inl leaves.1)
  have ended : ∀ run ∈ p.current.toList ++ p.complete,
      IsMaximal hashComments lines run ∧ run.start + run.length < k + 1 := by
    intro run member
    rcases List.mem_append.mp member with isCurrent | complete
    · obtain ⟨isRun, stop⟩ := scanned.going.1 run (by simpa using isCurrent)
      exact ⟨⟨isRun, by rwa [stop]⟩, by omega⟩
    · exact ⟨scanned.maximal run complete, Nat.lt_succ_of_lt (scanned.before run complete)⟩
  refine ⟨?_, by simp, ⟨by simp, ?_⟩, fun run member => (ended run member).1, by simpa using scanned.apart,
    fun run member => (ended run member).2, ?_⟩
  · simp [inBlock_succ here, free.1, opensNot]
  · rintro - i same
    obtain rfl : i = k := by omega
    exact notCommented
  · intro i upTo isComment
    have earlier : i ≠ k := by
      rintro rfl
      exact notCommented isComment
    simpa using scanned.covered i (by omega) isComment

theorem step_scanned {p : Progress} (scanned : Scanned hashComments lines k p)
    (here : lines[k]? = some line) :
    Scanned hashComments lines (k + 1) (step hashComments p k line) := by
  by_cases inside : InBlock lines k
  · -- In a block the line only says whether the block ends.
    have isOpen := scanned.inBlock.mpr inside
    rw [step, if_pos isOpen]
    refine scanned.extend here ((isCommentLine_iff here).mpr (.inl inside)) rfl rfl ?_ ?_
    · simp [DocumentedAfter, inside]
    · simp [inBlock_succ here, inside]
  · have isClosed : p.inBlock = false := by
      rw [← Bool.not_eq_true, scanned.inBlock]
      exact inside
    simp only [step, isClosed, Bool.false_eq_true, ↓reduceIte]
    by_cases begins : BeginsComment hashComments line
    · have commented := (isCommentLine_iff here).mpr (.inr begins : InBlock lines k ∨ _)
      by_cases block : startsWith "/*" line = true
      · obtain ⟨documentation, documents, isBlock⟩ :=
          lineKind_of_block hashComments block
        simp only [isBlock]
        refine scanned.extend here commented rfl rfl ?_ ?_
        · simp [DocumentedAfter, inside, block, documents]
        · simp [inBlock_succ here, inside, LeavesOpen, block]
      · simp only [lineKind_of_comment (by simpa using block) begins]
        have notOpened : ¬ LeavesOpen line := fun leaves => block leaves.1
        rw [show p = ⟨p.complete, p.current, false⟩ by rw [← isClosed]]
        refine scanned.extend here commented rfl rfl ?_ ?_
        · simp [DocumentedAfter, block]
        · simp [inBlock_succ here, inside, notOpened]
    · have interrupted := scanned.interrupt here (by simp [isCommentLine_iff here, inside, begins])
      simp only [lineKind_of_other begins]
      cases current : p.current with
      | none =>
        have same : p = ⟨p.complete, none, false⟩ := by rw [← current, ← isClosed]
        rw [same]
        simpa [current] using interrupted
      | some run => simpa [current, isClosed] using interrupted

end

/-- What is known of the lines taken in is known of more of them after the scan has gone on. -/
theorem advance_scanned {hashComments : Bool} {lines : List (List Char)} {k : Nat} {p : Progress}
    (scanned : Scanned hashComments lines k p) (rest : List (List Char))
    (behind : rest.map (Text.stripChars isBlank) <+: lines.drop k) :
    Scanned hashComments lines (k + rest.length) (advance hashComments p k rest) := by
  induction rest generalizing k p with
  | nil => exact scanned
  | cons raw rest inductionHypothesis =>
    obtain ⟨more, isSplit⟩ := behind
    rw [List.map_cons, List.cons_append] at isSplit
    have here : lines[k]? = some (Text.stripChars isBlank raw) := by
      rw [← List.head?_drop, ← isSplit]
      rfl
    have behindNext : rest.map (Text.stripChars isBlank) <+: lines.drop (k + 1) := by
      rw [← List.tail_drop, ← isSplit]
      exact ⟨more, rfl⟩
    rw [advance, List.length_cons, show k + (rest.length + 1) = k + 1 + rest.length by omega]
    exact inductionHypothesis (step_scanned scanned here) behindNext

section

variable (t : Text) (hashComments : Bool)

theorem scanned_take {k : Nat} (inText : k ≤ (textLines t).length) :
    Scanned hashComments (strippedLines t) k
      (advance hashComments ⟨[], none, false⟩ 0 ((textLines t).take k)) := by
  have taken := advance_scanned (scanned_start hashComments (strippedLines t))
    ((textLines t).take k) ((List.take_prefix k (textLines t)).map _)
  rwa [List.length_take, Nat.min_eq_left inText, Nat.zero_add] at taken

theorem scanned_all :
    Scanned hashComments (strippedLines t) (textLines t).length
      (advance hashComments ⟨[], none, false⟩ 0 (textLines t)) := by
  have all := scanned_take t hashComments (Nat.le_refl (textLines t).length)
  rwa [List.take_length] at all

theorem isMaximal_of_mem_findAll {run : CommentRun} (member : run ∈ findAll t hashComments) :
    IsMaximal hashComments (strippedLines t) run := by
  have scanned := scanned_all t hashComments
  rcases List.mem_append.mp (List.mem_reverse.mp member) with isCurrent | complete
  · obtain ⟨isRun, stop⟩ := scanned.going.1 run (by simpa using isCurrent)
    -- There is no line behind the last one.
    refine ⟨isRun, ?_⟩
    rintro ⟨line, here, -⟩
    rw [stop, List.getElem?_eq_none (by simp [strippedLines])] at here
    cases here
  · exact scanned.maximal run complete

/-- The runs that are found are the maximal intervals of comment lines. -/
theorem mem_findAll_iff (run : CommentRun) :
    run ∈ findAll t hashComments ↔ IsMaximal hashComments (strippedLines t) run := by
  constructor
  · exact isMaximal_of_mem_findAll t hashComments
  · intro maximal
    have nonempty := maximal.nonempty
    have first := maximal.commented run.start (Nat.le_refl _) (by omega)
    have inText : run.start < (textLines t).length := by
      obtain ⟨line, here, -⟩ := first
      simpa [strippedLines] using (List.getElem?_eq_some_iff.mp here).1
    obtain ⟨found, member, fromStart, upTo⟩ :=
      (scanned_all t hashComments).covered run.start inText first
    have isFound : found ∈ findAll t hashComments := List.mem_reverse.mpr member
    rwa [maximal.eq_of_common (isMaximal_of_mem_findAll t hashComments isFound) (Nat.le_refl _)
      (by omega) fromStart upTo]

theorem pairwise_findAll : (findAll t hashComments).Pairwise fun earlier later =>
    earlier.start + earlier.length < later.start := by
  rw [findAll, List.pairwise_reverse]
  exact (scanned_all t hashComments).apart

end

end CommentRun

/-- The runs of a file that are long enough and document nothing. -/
def CommentRun.reported (path content : String) (least : Int) : List CommentRun :=
  (findAll (Text.ofString content) (isPhpPath path)).filter fun run =>
    !run.documented && decide (least ≤ run.length)

theorem commentedCode_eq (path content : String) (least : Int) :
    commentedCode path content (.ok least)
      = .ok ((CommentRun.reported path content least).map (CommentRun.issue path)) := by
  have sameRuns : CommentRun.reported path content least
      = (CommentRun.undocumented path content).filter fun run => decide (least ≤ run.length) := by
    rw [CommentRun.reported, CommentRun.undocumented, List.filter_filter]
    apply List.filter_congr
    intro run _
    exact Bool.and_comm _ _
  rw [sameRuns]
  unfold commentedCode
  split
  · next none => simp [none, pure, Except.pure]
  · rfl

/-- A higher threshold reports some of the same runs, in the same order. -/
theorem CommentRun.reported_sublist (path content : String) {least more : Int} (higher : least ≤ more) :
    (reported path content more).Sublist (reported path content least) := by
  have fewer : reported path content more
      = (reported path content least).filter fun run => decide (more ≤ run.length) := by
    rw [reported, reported, List.filter_filter]
    apply List.filter_congr
    intro run _
    cases run.documented with
    | true => simp
    | false =>
      by_cases long : more ≤ run.length
      · simp [long, Int.le_trans higher long]
      · simp [long]
  rw [fewer]
  exact List.filter_sublist

/-- The runs of comment lines of a text are its maximal intervals of comment lines, apart from each
other and within its lines, and a block is open only in a run. Of the runs those are reported that are
long enough and document nothing, with their first and last lines; a higher threshold only leaves
some of them out. -/
theorem comment_runs_are_maximal (content : String) :
    (∀ hashComments,
      (∀ run, run ∈ CommentRun.findAll (Text.ofString content) hashComments
        ↔ CommentRun.IsMaximal hashComments (CommentRun.strippedLines (Text.ofString content)) run)
      ∧ ((CommentRun.findAll (Text.ofString content) hashComments).Pairwise fun earlier later =>
        earlier.start + earlier.length < later.start)
      ∧ (∀ run ∈ CommentRun.findAll (Text.ofString content) hashComments,
        run.start + run.length ≤ (textLines (Text.ofString content)).length)
      ∧ ∀ k ≤ (textLines (Text.ofString content)).length, ∀ p,
        p = CommentRun.advance hashComments ⟨[], none, false⟩ 0
          ((textLines (Text.ofString content)).take k) →
        (p.inBlock = true
          ↔ CommentRun.InBlock (CommentRun.strippedLines (Text.ofString content)) k)
        ∧ (p.inBlock = true → p.current ≠ none))
    ∧ ∀ (path : String) (least : Int), 1 ≤ least → ∃ issues,
      commentedCode path content (.ok least) = .ok issues
      ∧ issues = (CommentRun.reported path content least).map (CommentRun.issue path)
      ∧ (∀ run : CommentRun, (run.issue path).line = .ofNat (run.start + 1)
        ∧ (run.issue path).extra.lookup "end_line" = some (.ofNat (run.start + run.length)))
      ∧ ∀ more, least ≤ more → ∃ fewer,
        commentedCode path content (.ok more) = .ok fewer ∧ fewer.Sublist issues := by
  refine ⟨fun hashComments => ⟨?_, ?_, ?_, ?_⟩, ?_⟩
  · exact CommentRun.mem_findAll_iff _ hashComments
  · exact CommentRun.pairwise_findAll _ hashComments
  · intro run member
    exact (CommentRun.endsBy_of_mem_findAll member).2
  · rintro k inText p rfl
    have scanned := CommentRun.scanned_take _ hashComments inText
    exact ⟨scanned.inBlock, scanned.running⟩
  · intro path least _
    refine ⟨_, commentedCode_eq path content least, rfl, fun run => ⟨rfl, rfl⟩, ?_⟩
    intro more higher
    exact ⟨_, commentedCode_eq path content more,
      (CommentRun.reported_sublist path content higher).map _⟩

/-- A documented block, a line comment right behind it, and a hash comment further down. -/
def bannerText : String := "/** a\n b\n*/\n// c\n\n# d\n# e"

theorem bannerText_runs :
    (⟨0, 4, true⟩ : CommentRun) ∈ CommentRun.findAll (Text.ofString bannerText) true
      ∧ 0 + 4 ≤ (textLines (Text.ofString bannerText)).length
      ∧ CommentRun.InBlock (CommentRun.strippedLines (Text.ofString bannerText)) 2
      ∧ commentedCode "a.php" bannerText (.ok 2) = .ok [CommentRun.issue "a.php" ⟨5, 2, false⟩]
      ∧ ∃ fewer, commentedCode "a.php" bannerText (.ok 3) = .ok fewer
        ∧ fewer.Sublist [CommentRun.issue "a.php" ⟨5, 2, false⟩] := by
  obtain ⟨scans, reports⟩ := comment_runs_are_maximal bannerText
  obtain ⟨-, -, within, blocks⟩ := scans true
  have found : (⟨0, 4, true⟩ : CommentRun) ∈ CommentRun.findAll (Text.ofString bannerText) true := by
    decide
  have reported : CommentRun.reported "a.php" bannerText 2 = [⟨5, 2, false⟩] := by decide
  obtain ⟨issues, returned, areReported, -, raise⟩ := reports "a.php" 2 (by decide)
  rw [reported] at areReported
  subst areReported
  exact ⟨found, within _ found, (blocks 2 (by decide) _ rfl).1.mp (by decide), returned,
    raise 3 (by decide)⟩

end Surveyor
