/-
Where findings stand.

Whatever a failure tells about, it tells the place of a token, and a token has the place of its
first byte, in a text that the counters of places are large enough for.  Only one thing is told
about where no token starts: the end of the text, if reading stops there.  The end marker has the
place of the end, unless a comment ends the text; then it has the place of that comment, which is
wrong.

The main result is `places_right_iff`.
-/
import ParenC.Proofs.Findings
import ParenC.Proofs.Token.Joined

namespace ParenC

variable {file source : String} {error : CompileError} {loc : Location}

/-! ## Places of a text -/

/-- Behind different parts of a text that start where it does there are different places. -/
lemma Location.behind_injective {text before before' : List Char} (h : before <+: text)
    (h' : before' <+: text) (heq : behind before = behind before') : before = before' := by
  -- what lies between two such places takes up bytes, and its line breaks start lines
  have hnone : ∀ {before between : List Char}, behind before = behind (before ++ between) →
      between = [] := by
    intro before between heq
    by_cases hbreak : '\n' ∈ between
    · have hline := congrArg Location.line heq
      have hbyte : lineBreak ∈ bytesOf between := by
        exact List.mem_flatMap.mpr ⟨'\n', hbreak, by decide⟩
      have hcount := List.count_pos_iff.mpr hbyte
      simp only [behind, bytesOf_append, List.count_append] at hline
      omega
    · have hbytes : (bytesOf between).length = 0 := by
        simpa [behind_append before hbreak] using congrArg Location.column heq
      cases between with
      | nil => rfl
      | cons c rest =>
        rw [bytesOf, List.flatMap_cons, List.length_append, String.length_utf8EncodeChar] at hbytes
        have := c.utf8Size_pos
        omega
  rcases List.prefix_or_prefix_of_prefix h h' with ⟨between, rfl⟩ | ⟨between, rfl⟩
  · rw [hnone heq, List.append_nil]
  · rw [hnone heq.symm, List.append_nil]

/-- A lexeme of the text starts at the place. -/
def StartsLexeme (source : String) (loc : Location) : Prop :=
  ∃ before kind text later,
    TakesApart source.toList (before ++ .lexeme kind text :: later) [] ∧
      loc = .behind (spelled before)

/-- A comment that starts at the place ends the text. -/
def EndsInComment (source : String) (loc : Location) : Prop :=
  ∃ before body, TakesApart source.toList (before ++ [.comment body]) [] ∧
    loc = .behind (spelled before)

/-- Where the last comment starts, no lexeme starts. -/
lemma EndsInComment.not_startsLexeme (h : EndsInComment source loc) :
    ¬ StartsLexeme source loc := by
  rintro ⟨before', kind, text, later, htakes', hloc'⟩
  obtain ⟨before, body, htakes, rfl⟩ := h
  obtain ⟨⟨htext, -⟩, -⟩ := htakes.of_append
  obtain ⟨⟨htext', -⟩, hmunch, -⟩ := htakes'.of_append
  have hsame := Location.behind_injective ⟨_, htext.symm⟩ ⟨_, htext'.symm⟩ hloc'
  rw [htext, hsame, List.append_cancel_left_eq] at htext'
  have hfront : text ++ (spelled later ++ []) = ';' :: body := by
    simpa [Segment.chars] using htext'.symm
  change Munch kind text (text ++ (spelled later ++ [])) at hmunch
  rw [hfront] at hmunch
  exact absurd hmunch.isGap_head (by decide)

/-- Nor does the text end there. -/
lemma EndsInComment.ne_behind (h : EndsInComment source loc) : loc ≠ .behind source.toList := by
  obtain ⟨before, body, htakes, rfl⟩ := h
  obtain ⟨⟨htext, -⟩, -⟩ := htakes.of_append
  intro hloc
  have hsame := Location.behind_injective ⟨_, htext.symm⟩ (List.prefix_refl _) hloc
  rw [hsame] at htext
  simp [Segment.chars] at htext

/-- No comment ends the text if its last line has none. -/
lemma not_endsInComment {text line : List Char} (htext : source.toList = text ++ '\n' :: line)
    (hline : ';' ∉ line) : ¬ EndsInComment source loc := by
  rintro ⟨before, body, htakes, -⟩
  obtain ⟨⟨hbefore, -⟩, hcomment, -⟩ := htakes.of_append
  rw [htext] at hbefore
  rcases List.append_eq_append_iff.mp hbefore with ⟨between, -, hrest⟩ | ⟨between, -, hrest⟩
  · have hmem : ';' ∈ '\n' :: line := by
      rw [hrest]
      simp [Segment.chars]
    exact hline (by simpa using hmem)
  · have hmem : '\n' ∈ spelled [.comment body] ++ [] := by
      rw [hrest]
      simp
    exact hcomment.1 (by simpa [Segment.chars] using hmem)

/-! ## Places of tokens -/

/-- A token has the place of its lexeme. -/
lemma exists_of_mem_lexemesOf {before : List Char} {segments : List Segment} {token : Token}
    (h : token ∈ lexemesOf before segments) : ∃ first kind text later,
      segments = first ++ .lexeme kind text :: later ∧
        token.location = .after (before ++ spelled first) := by
  induction segments generalizing before with
  | nil => cases h
  | cons segment segments ih =>
    have hlater : token ∈ lexemesOf (before ++ segment.chars) segments →
        ∃ first kind text later, segment :: segments = first ++ .lexeme kind text :: later ∧
          token.location = .after (before ++ spelled first) := by
      intro hmem
      obtain ⟨first, kind, text, later, rfl, hloc⟩ := ih hmem
      exact ⟨segment :: first, kind, text, later, rfl,
        by rw [hloc, spelled_cons, List.append_assoc]⟩
    cases segment with
    | blank c => exact hlater h
    | comment body => exact hlater h
    | lexeme kind text =>
      rcases List.mem_cons.mp h with rfl | h
      · exact ⟨[], kind, text, segments, rfl, by simp⟩
      · exact hlater h

/-- The end marker has the place of the end, or of the comment there. -/
lemma endOf_cases (before : List Char) (segments : List Segment) :
    endOf before segments = .after (before ++ spelled segments) ∨
      ∃ first body, segments = first ++ [.comment body] ∧
        endOf before segments = .after (before ++ spelled first) := by
  induction segments generalizing before with
  | nil => exact .inl (by simp [endOf])
  | cons segment segments ih =>
    have hlater : endOf before (segment :: segments) = endOf (before ++ segment.chars) segments →
        endOf before (segment :: segments) = .after (before ++ spelled (segment :: segments)) ∨
          ∃ first body, segment :: segments = first ++ [.comment body] ∧
            endOf before (segment :: segments) = .after (before ++ spelled first) := by
      intro heq
      rw [heq]
      rcases ih (before ++ segment.chars) with hend | ⟨first, body, rfl, hend⟩
      · exact .inl (by rw [hend, spelled_cons, List.append_assoc])
      · exact .inr ⟨segment :: first, body, rfl, by rw [hend, spelled_cons, List.append_assoc]⟩
    cases segment with
    | blank c => exact hlater rfl
    | lexeme kind text => exact hlater rfl
    | comment body =>
      cases segments with
      | nil => exact .inr ⟨[], body, rfl, by simp [endOf]⟩
      | cons next segments => exact hlater rfl

lemma Cut.Of.startsLexeme {cut : Cut} (h : cut.Of source) (hshort : Addressable source.toList)
    (hloc : loc ∈ cut.places) : StartsLexeme source loc := by
  obtain ⟨segments, htakes, htokens, -⟩ := h
  obtain ⟨token, htoken, rfl⟩ := List.mem_map.mp hloc
  rw [htokens] at htoken
  obtain ⟨before, kind, text, later, rfl, hplace⟩ := exists_of_mem_lexemesOf htoken
  refine ⟨before, kind, text, later, htakes, hplace.trans ?_⟩
  exact (hshort.front ⟨_, htakes.of_append.1.1.symm⟩).after_eq

lemma Cut.Of.finish_cases {cut : Cut} (h : cut.Of source) (hshort : Addressable source.toList) :
    cut.finish = .behind source.toList ∨ EndsInComment source cut.finish := by
  obtain ⟨segments, htakes, -, hfinish⟩ := h
  have htext : source.toList = spelled segments := by simpa using htakes.1
  rw [hfinish]
  rcases endOf_cases [] segments with hend | ⟨before, body, rfl, hend⟩
  · refine .inl (hend.trans ?_)
    rw [List.nil_append, ← htext, hshort.after_eq]
  · refine .inr ⟨before, body, htakes, hend.trans ?_⟩
    exact (hshort.front ⟨_, htakes.of_append.1.1.symm⟩).after_eq

/-! ## Places in failures -/

namespace CompileError

/-- The findings that waited for the end of their phase. -/
def diagnostics : CompileError → List Diagnostic
  | fatal _ _ _ earlier | notImplemented _ _ _ earlier => earlier
  | halted _ diagnostics => diagnostics

/-- Reading stopped at the end marker, and this is its place. -/
inductive StopsAtEnd (loc : Location) : CompileError → Prop
  | intro {file : String} {refusal : Refusal} {earlier : List Diagnostic}
      (concerns : refusal.Concerns (Token.eof loc)) :
      StopsAtEnd loc (.fatal file loc refusal.message earlier)

/-- The place is right: a lexeme starts there, or reading stopped at the end of the text, and this
is where it ends. -/
def IsRight (source : String) (error : CompileError) (loc : Location) : Prop :=
  StartsLexeme source loc ∨ (error.StopsAtEnd loc ∧ loc = .behind source.toList)

end CompileError

/-- A place of the failure is right, or it is that of the comment at the end. -/
lemma CompileError.Told.place_cases {cut : Cut} (h : error.Told file cut) (hcut : cut.Of source)
    (hshort : Addressable source.toList) :
    (∀ d ∈ error.diagnostics, StartsLexeme source d.location) ∧ ∀ loc ∈ error.locations,
      error.IsRight source loc ∨ (error.StopsAtEnd loc ∧ EndsInComment source loc) := by
  have hfindings : ∀ {findings : List Diagnostic}, (∀ d ∈ findings, d.Told file cut) →
      ∀ d ∈ findings, StartsLexeme source d.location :=
    fun htold d hd => hcut.startsLexeme hshort (htold d hd).place
  have hplaces : ∀ {findings : List Diagnostic}, (∀ d ∈ findings, d.Told file cut) →
      ∀ loc ∈ findings.map Diagnostic.location, StartsLexeme source loc := by
    intro findings htold loc hloc
    obtain ⟨d, hd, rfl⟩ := List.mem_map.mp hloc
    exact hfindings htold d hd
  cases h with
  | fatal meets concerns findings =>
    refine ⟨hfindings findings, fun loc hloc => ?_⟩
    rcases List.mem_cons.mp hloc with rfl | hloc
    · rcases meets with htoken | rfl
      · exact .inl (.inl (hcut.startsLexeme hshort (Cut.mem_places htoken)))
      · -- what was missing is missed at the end of the text, which a comment may hide
        rcases hcut.finish_cases hshort with hend | hcomment
        · exact .inl (.inr ⟨.intro concerns, hend⟩)
        · exact .inr ⟨.intro concerns, hcomment⟩
    · exact .inl (.inl (hplaces findings loc hloc))
  | notImplemented place _ findings =>
    refine ⟨hfindings findings, fun loc hloc => ?_⟩
    rcases List.mem_cons.mp hloc with rfl | hloc
    · exact .inl (.inl (hcut.startsLexeme hshort place))
    · exact .inl (.inl (hplaces findings loc hloc))
  | halted findings =>
    exact ⟨hfindings findings, fun loc hloc => .inl (.inl (hplaces findings loc hloc))⟩

lemma EndsInComment.not_isRight (h : EndsInComment source loc) : ¬ error.IsRight source loc := by
  rintro (hstarts | ⟨-, hend⟩)
  · exact h.not_startsLexeme hstarts
  · exact h.ne_behind hend

/-- If a text is cut into tokens but does not compile, all places in the failure are right, unless
one of them is that of a comment that ends the text.  That can only be the place of the end marker,
which reading stopped at; findings that waited for the end of their phase stand at lexemes.

The text has to be short enough for the counters of lines and columns. -/
theorem places_right_iff {tokens : List Token} {ws : Workspace}
    (hshort : Addressable source.toList)
    (htokens : CompileM.tokenize source (.initial file) = .ok tokens ws)
    (hfails : assemble file source = .error (.error error)) :
    ((∀ loc ∈ error.locations, error.IsRight source loc) ↔
      ∀ loc ∈ error.locations, ¬ EndsInComment source loc) ∧
    (∀ d ∈ error.diagnostics, StartsLexeme source d.location) ∧
    ∀ loc ∈ error.locations, error.IsRight source loc ∨
      (error.StopsAtEnd loc ∧ EndsInComment source loc) := by
  obtain ⟨cut, hcut, htold⟩ : ∃ cut : Cut, cut.Of source ∧ error.Told file cut := by
    rcases (assemble_fails_iff.mp hfails).told with ⟨_, _, run, -⟩ | htold
    · rw [htokens] at run
      cases run
    · exact htold
  obtain ⟨hfindings, hplaces⟩ := htold.place_cases hcut hshort
  refine ⟨⟨fun hright loc hloc hcomment => hcomment.not_isRight (hright loc hloc), ?_⟩,
    hfindings, hplaces⟩
  intro hnone loc hloc
  rcases hplaces loc hloc with hright | ⟨-, hcomment⟩
  · exact hright
  · exact absurd hcomment (hnone loc hloc)

/-- A text of two lines that breaks off where a type is missing, with a comment on the first
line. -/
theorem places_right_iff_lines : Addressable "(:= x 1) ; é\n(let".toList ∧ ∃ tokens ws error,
    CompileM.tokenize "(:= x 1) ; é\n(let" (.initial "notes") = .ok tokens ws ∧
    assemble "notes" "(:= x 1) ; é\n(let" = .error (.error error) ∧
    error.locations = [⟨2, 5⟩, ⟨1, 5⟩] ∧
    ∀ loc ∈ error.locations, error.IsRight "(:= x 1) ; é\n(let" loc := by
  have hshort : Addressable "(:= x 1) ; é\n(let".toList := by decide +kernel
  have hcut : (CompileM.tokenize "(:= x 1) ; é\n(let").Succeeds (.initial "notes") := by
    decide +kernel
  have hruns : failsAnd "notes" "(:= x 1) ; é\n(let" (fun error =>
      error.locations = [⟨2, 5⟩, ⟨1, 5⟩]) = true := by
    decide +kernel
  have hlines : "(:= x 1) ; é\n(let".toList =
      ['(', ':', '=', ' ', 'x', ' ', '1', ')', ' ', ';', ' ', 'é'] ++
        '\n' :: ['(', 'l', 'e', 't'] := by
    decide +kernel
  obtain ⟨tokens, ws, htokens⟩ := hcut
  obtain ⟨error, herror, hplaces⟩ := error_of_failsAnd hruns
  refine ⟨hshort, tokens, ws, error, htokens, herror, of_decide_eq_true hplaces, ?_⟩
  exact (places_right_iff hshort htokens herror).1.mpr fun loc _ =>
    not_endsInComment hlines (by decide)

/-- A list that is not closed before a comment: the end of the text is shown where the comment
starts. -/
theorem not_places_right_comment : ∃ tokens ws error,
    CompileM.tokenize "( ; open" (.initial "notes") = .ok tokens ws ∧
    assemble "notes" "( ; open" = .error (.error error) ∧
    ∃ loc ∈ error.locations, ¬ error.IsRight "( ; open" loc := by
  have hruns : failsAnd "notes" "( ; open" (fun error => error.locations = [⟨1, 3⟩]) = true := by
    decide +kernel
  obtain ⟨error, herror, hplaces⟩ := error_of_failsAnd hruns
  have hcomment : EndsInComment "( ; open" ⟨1, 3⟩ := by
    refine ⟨[.lexeme .lparen ['('], .blank ' '], [' ', 'o', 'p', 'e', 'n'], ⟨?_, ?_⟩, ?_⟩
    · decide +kernel
    · have hgap : ∀ c, some ' ' = some c → isGap c = true := by
        rintro c ⟨⟩
        decide
      exact ⟨Lexeme.lparen.munch hgap, List.mem_cons_self, ⟨by decide, .inl rfl⟩, trivial⟩
    · decide +kernel
  obtain ⟨segments, htakes⟩ : ∃ segments, TakesApart "( ; open".toList segments [] := by
    obtain ⟨before, body, htakes, -⟩ := hcomment
    exact ⟨_, htakes⟩
  obtain ⟨ws, htokens⟩ := tokenize_of_takesApart htakes (.initial "notes")
  refine ⟨_, ws, error, htokens, herror, ⟨1, 3⟩, ?_, hcomment.not_isRight⟩
  simp [of_decide_eq_true hplaces]

end ParenC
