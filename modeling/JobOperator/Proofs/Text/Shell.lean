import Mathlib.Data.List.Chain
import Mathlib.Data.List.Infix
import Mathlib.Tactic.SplitIfs

/-!
Scripts as a shell takes them apart. Quotes and backslashes keep characters from being signs of the
shell. What they do not keep is split into commands at `&&`, `;`, `|` and the ends of lines, and a
command into words at blanks. A word of a script without quotes holds no such sign. What a shell puts in
the place of words, where their input and output go, and comments are left aside.
-/

namespace JobOperator.Shell

/-! ### Quotes -/

/-- The character that opens and closes the quotes in which every character is kept. -/
def singleQuote : Char := '\x27'

/-- How a script stands before its next character: outside of quotes, within single or double quotes,
or after a backslash outside of quotes or within double quotes. -/
inductive Mode where
  | bare
  | single
  | double
  | escaped
  | doubleEscaped
  deriving DecidableEq

/-- A piece of a script: a character that the shell may take for a sign, or a text that it keeps. -/
inductive Piece where
  | bare (c : Char)
  | kept (text : List Char)
  deriving DecidableEq

/-- The pieces that a character adds, and how the script stands after it. A quote adds the empty text,
as it makes a word even where there is nothing within; a line that ends in a backslash goes on in the
next one. -/
def Mode.step : Mode → Char → List Piece × Mode
  | .bare, c =>
    if c = '\\' then ([], .escaped)
    else if c = singleQuote then ([.kept []], .single)
    else if c = '"' then ([.kept []], .double)
    else ([.bare c], .bare)
  | .single, c => if c = singleQuote then ([], .bare) else ([.kept [c]], .single)
  | .double, c =>
    if c = '"' then ([], .bare)
    else if c = '\\' then ([], .doubleEscaped)
    else ([.kept [c]], .double)
  | .escaped, c => (if c = '\n' then [] else [.kept [c]], .bare)
  | .doubleEscaped, c =>
    if c = '\n' then ([], .double)
    else if "$`\"\\".toList.contains c then ([.kept [c]], .double)
    else ([.kept ['\\', c]], .double)

/-- The pieces of a text, unless it ends within quotes or after a backslash. -/
def pieces? : Mode → List Char → Option (List Piece)
  | mode, [] => if mode = .bare then some [] else none
  | mode, c :: rest => (pieces? (mode.step c).2 rest).map ((mode.step c).1 ++ ·)

/-! ### Commands and words -/

/-- Whether a character is a quote or keeps the next one from being a sign. -/
def isQuoting (c : Char) : Bool := c = '\\' || c = singleQuote || c = '"'

/-- Whether a character stands between words. -/
def isBlank (c : Char) : Bool := c = ' ' || c = '\t'

/-- Whether a character stands between commands. -/
def endsCommand (c : Char) : Bool := c = ';' || c = '|' || c = '\n'

/-- What a script consists of once its quotes are gone: parts of words, and what stands between words
and between commands. -/
inductive Token where
  | part (text : List Char)
  | blank
  | separator
  deriving DecidableEq

/-- What a piece is when it stands alone. -/
def Piece.token : Piece → Token
  | .bare c => if isBlank c then .blank else if endsCommand c then .separator else .part [c]
  | .kept text => .part text

/-- The tokens of pieces, with two `&` as one of them. -/
def tokens : List Piece → List Token
  | .bare '&' :: .bare '&' :: rest => .separator :: tokens rest
  | piece :: rest => piece.token :: tokens rest
  | [] => []

/-- The text of a token. -/
def Token.text : Token → List Char
  | .part text => text
  | _ => []

/-- The longest stretches of a list without elements of a kind. -/
def stretches {α : Type} (p : α → Bool) (l : List α) : List (List α) :=
  (l.splitOnP p).filter (!·.isEmpty)

/-- The words of a command. -/
def words (command : List Token) : List (List Char) :=
  (stretches (· == .blank) command).map (·.flatMap Token.text)

/-- The commands that tokens make, each as its words. -/
def commands (tokens : List Token) : List (List (List Char)) :=
  ((tokens.splitOnP (· == .separator)).map words).filter (!·.isEmpty)

/-- The commands of a script, each as its words, unless the script is not complete. -/
def commands? (script : List Char) : Option (List (List (List Char))) :=
  (pieces? .bare script).map fun pieces => commands (tokens pieces)

-- blanks and signs within quotes or after a backslash are part of a word, and so are empty quotes
example : commands? "a 'b  ;c'\\ d \"\" && e|f".toList =
    some [["a".toList, "b  ;c d".toList, []], ["e".toList], ["f".toList]] := by
  decide

example : commands? "a 'b".toList = none := by decide

/-! ### Texts without quotes -/

/-- The text of a piece. -/
def Piece.text : Piece → List Char
  | .bare c => [c]
  | .kept text => text

/-- How many quoting characters a mode may still add: within double quotes a backslash is kept when the
next character is not one that it quotes. -/
def Mode.pending : Mode → Nat
  | .doubleEscaped => 1
  | _ => 0

theorem countP_step (mode : Mode) (c : Char) :
    ((mode.step c).1.flatMap Piece.text).countP isQuoting + (mode.step c).2.pending ≤
      [c].countP isQuoting + mode.pending := by
  cases mode <;> simp only [Mode.step] <;> split_ifs <;>
    simp_all [Piece.text, Mode.pending, List.countP_cons, isQuoting, singleQuote]

theorem countP_pieces {mode : Mode} {text : List Char} {pieces : List Piece}
    (h : pieces? mode text = some pieces) :
    (pieces.flatMap Piece.text).countP isQuoting ≤ text.countP isQuoting + mode.pending := by
  induction text generalizing mode pieces with
  | nil =>
    simp only [pieces?] at h
    split at h
    · cases h
      exact Nat.zero_le _
    · cases h
  | cons c rest ih =>
    obtain ⟨read, hread, rfl⟩ := Option.map_eq_some_iff.1 h
    have hstep := countP_step mode c
    have hrest := ih hread
    rw [List.flatMap_append, List.countP_append, ← List.singleton_append, List.countP_append]
    omega

theorem step_bare {c : Char} (h : isQuoting c = false) :
    Mode.step .bare c = ([.bare c], .bare) := by
  simp_all [Mode.step, isQuoting]

/-- In a text without quoting characters every character may be a sign. -/
theorem pieces?_of_unquoted {text : List Char} (h : text.countP isQuoting = 0) :
    pieces? .bare text = some (text.map .bare) := by
  induction text with
  | nil => rfl
  | cons c rest ih =>
    have hall := List.countP_eq_zero.1 h
    have hc : isQuoting c = false := by simpa using hall c List.mem_cons_self
    have hrest : rest.countP isQuoting = 0 :=
      List.countP_eq_zero.2 fun d hd => hall d (List.mem_cons_of_mem _ hd)
    rw [pieces?, step_bare hc, ih hrest]
    rfl

/-- The first quoting character of a text is none of the text of its pieces. -/
theorem countP_pieces_lt {text : List Char} {pieces : List Piece}
    (h : pieces? .bare text = some pieces) (hquoting : text.countP isQuoting ≠ 0) :
    (pieces.flatMap Piece.text).countP isQuoting < text.countP isQuoting := by
  induction text generalizing pieces with
  | nil => exact absurd rfl hquoting
  | cons c rest ih =>
    obtain ⟨read, hread, rfl⟩ := Option.map_eq_some_iff.1 h
    rw [List.flatMap_append, List.countP_append, List.countP_cons]
    cases hc : isQuoting c with
    | true =>
      have hrest := countP_pieces hread
      have hstep : ((Mode.step .bare c).1.flatMap Piece.text).countP isQuoting = 0 ∧
          (Mode.step .bare c).2.pending = 0 := by
        simp only [isQuoting, Bool.or_eq_true, decide_eq_true_eq] at hc
        rcases hc with (rfl | rfl) | rfl <;> decide
      rw [if_pos rfl]
      omega
    | false =>
      rw [step_bare hc] at hread ⊢
      rw [List.countP_cons, hc] at hquoting
      have hlt := ih hread (by simpa using hquoting)
      simpa [Piece.text, hc] using hlt

/-! ### Stretches -/

section Stretches

variable {α β : Type} {p : α → Bool}

theorem stretches_append_cons {sep : α} (h : p sep = true) (before after : List α) :
    stretches p (before ++ sep :: after) = stretches p before ++ stretches p after := by
  rw [stretches, List.splitOnP_append_cons before after h, List.filter_append, stretches, stretches]

theorem stretches_of_forall {l : List α} (h : ∀ a ∈ l, p a = false) (hne : l ≠ []) :
    stretches p l = [l] := by
  rw [stretches, List.splitOnP_eq_singleton h]
  cases l with
  | nil => exact absurd rfl hne
  | cons a rest => rfl

/-- What is split off a list is a part of it, without the elements at which it is split. -/
theorem of_mem_splitOnP {l piece : List α} (h : piece ∈ l.splitOnP p) :
    piece <:+: l ∧ ∀ a ∈ piece, p a = false := by
  -- the first piece starts where the list does, so that an element in front of the list may join it
  suffices hall : (∃ first rest, l.splitOnP p = first :: rest ∧ first <+: l) ∧
      ∀ piece ∈ l.splitOnP p, piece <:+: l ∧ ∀ a ∈ piece, p a = false from hall.2 piece h
  clear h
  induction l with
  | nil => simp
  | cons a l ih =>
    obtain ⟨⟨first, rest, heq, hfirst⟩, hall⟩ := ih
    rw [List.splitOnP_cons_eq_if_modifyHead]
    split
    · refine ⟨⟨[], _, rfl, List.nil_prefix⟩, fun piece hpiece => ?_⟩
      rcases List.mem_cons.1 hpiece with rfl | hpiece
      · exact And.intro List.nil_infix nofun
      · exact ⟨(hall piece hpiece).1.trans (List.infix_cons List.infix_rfl), (hall piece hpiece).2⟩
    · rename_i ha
      rw [heq] at hall ⊢
      have hcons : a :: first <+: a :: l := List.cons_prefix_cons.2 ⟨rfl, hfirst⟩
      refine ⟨⟨_, _, rfl, hcons⟩, fun piece hpiece => ?_⟩
      rcases List.mem_cons.1 hpiece with rfl | hpiece
      · refine ⟨hcons.isInfix, fun b hb => ?_⟩
        rcases List.mem_cons.1 hb with rfl | hb
        · simpa using ha
        · exact (hall first List.mem_cons_self).2 b hb
      · have hrest := hall piece (List.mem_cons_of_mem _ hpiece)
        exact ⟨hrest.1.trans (List.infix_cons List.infix_rfl), hrest.2⟩

/-- Nothing is lost of what is collected, where the elements at which a list is split have nothing. -/
theorem flatten_map_splitOnP {f : α → List β} (h : ∀ a, p a = true → f a = []) (l : List α) :
    ((l.splitOnP p).map (·.flatMap f)).flatten = l.flatMap f := by
  induction l with
  | nil => rfl
  | cons a l ih =>
    rw [List.splitOnP_cons_eq_if_modifyHead, List.flatMap_cons, ← ih]
    split
    · rename_i ha
      rw [h a ha]
      rfl
    · obtain ⟨first, rest, heq⟩ := List.exists_cons_of_ne_nil (List.splitOnP_ne_nil p l)
      rw [heq]
      simp

theorem flatten_map_stretches {f : α → List β} (h : ∀ a, p a = true → f a = []) (l : List α) :
    ((stretches p l).map (·.flatMap f)).flatten = l.flatMap f := by
  have hflatten (L : List (List α)) : (L.map (·.flatMap f)).flatten = L.flatten.flatMap f := by
    rw [List.flatten_eq_flatMap (L := L), List.flatMap_assoc, List.flatMap_def]
    rfl
  rw [← flatten_map_splitOnP h, hflatten, hflatten, stretches, List.flatten_filter_not_isEmpty]

end Stretches

/-! ### Texts of words -/

theorem text_of_blank {token : Token} (h : (token == .blank) = true) : token.text = [] := by
  rw [eq_of_beq h]
  rfl

theorem text_of_separator {token : Token} (h : (token == .separator) = true) : token.text = [] := by
  rw [eq_of_beq h]
  rfl

/-- The words of a script hold all the text of its tokens. -/
theorem flatten_commands (tokens : List Token) :
    (commands tokens).flatten.flatten = tokens.flatMap Token.text := by
  have hwords (command : List Token) : (words command).flatten = command.flatMap Token.text :=
    flatten_map_stretches (fun _ => text_of_blank) command
  rw [commands, List.flatten_filter_not_isEmpty, List.flatten_flatten, List.map_map]
  simp only [Function.comp_def, hwords]
  exact flatten_map_splitOnP (fun _ => text_of_separator) tokens

/-- Tokens hold no other text than the pieces that they are made of. -/
theorem text_tokens (pieces : List Piece) :
    ((tokens pieces).flatMap Token.text).Sublist (pieces.flatMap Piece.text) := by
  have htoken (piece : Piece) : piece.token.text.Sublist piece.text := by
    cases piece with
    | bare c =>
      simp only [Piece.token]
      split_ifs
      · exact List.nil_sublist _
      · exact List.nil_sublist _
      · exact .refl _
    | kept text => exact .refl _
  fun_induction tokens pieces with
  | case1 rest ih => exact (ih.cons '&').cons '&'
  | case2 piece rest _ ih => exact (htoken piece).append ih
  | case3 => exact .refl _

/-! ### Plain words -/

/-- Whether a text can be part of a word without quotes: no character of it is a sign of the shell, and
no two in a row are. -/
structure Plain (text : List Char) : Prop where
  quoting : ∀ c ∈ text, isQuoting c = false
  blank : ∀ c ∈ text, isBlank c = false
  endsCommand : ∀ c ∈ text, endsCommand c = false
  ands : text.IsChain fun a b => ¬ (a = '&' ∧ b = '&')

theorem plain_nil : Plain [] := ⟨nofun, nofun, nofun, .nil⟩

theorem plain_append {a b : List Char} :
    Plain (a ++ b) ↔ Plain a ∧ Plain b ∧ ∀ c ∈ a.getLast?, ∀ d ∈ b.head?, ¬ (c = '&' ∧ d = '&') := by
  constructor
  · rintro ⟨hquoting, hblank, hends, hands⟩
    obtain ⟨hquoting, hquoting'⟩ := List.forall_mem_append.1 hquoting
    obtain ⟨hblank, hblank'⟩ := List.forall_mem_append.1 hblank
    obtain ⟨hends, hends'⟩ := List.forall_mem_append.1 hends
    obtain ⟨hands, hands', hbetween⟩ := List.isChain_append.1 hands
    exact ⟨⟨hquoting, hblank, hends, hands⟩, ⟨hquoting', hblank', hends', hands'⟩, hbetween⟩
  · rintro ⟨ha, hb, hbetween⟩
    exact ⟨List.forall_mem_append.2 ⟨ha.quoting, hb.quoting⟩,
      List.forall_mem_append.2 ⟨ha.blank, hb.blank⟩,
      List.forall_mem_append.2 ⟨ha.endsCommand, hb.endsCommand⟩,
      List.isChain_append.2 ⟨ha.ands, hb.ands, hbetween⟩⟩

/-- Whether a character is never a sign, wherever it stands. -/
def isLetter (c : Char) : Bool := !isQuoting c && !isBlank c && !endsCommand c && c != '&'

theorem plain_append_letter {c : Char} (h : isLetter c = true) {before after : List Char} :
    Plain (before ++ c :: after) ↔ Plain before ∧ Plain after := by
  simp only [isLetter, Bool.and_eq_true, Bool.not_eq_true', bne_iff_ne, ne_eq] at h
  obtain ⟨⟨⟨hquoting, hblank⟩, hends⟩, hand⟩ := h
  have hc : Plain [c] := ⟨by simpa, by simpa, by simpa, .singleton c⟩
  rw [plain_append, ← List.singleton_append, plain_append]
  simp [hc, hand]

theorem plain_cons_letter {c : Char} (h : isLetter c = true) {text : List Char} :
    Plain (c :: text) ↔ Plain text := by
  rw [← List.nil_append (c :: text), plain_append_letter h, and_iff_right plain_nil]

theorem tokens_cons {piece : Piece} {rest : List Piece}
    (h : piece = .bare '&' → rest.head? ≠ some (.bare '&')) :
    tokens (piece :: rest) = piece.token :: tokens rest := by
  rw [tokens]
  rintro after hpiece rfl
  exact h hpiece rfl

theorem mem_tokens {pieces : List Piece} {token : Token} (h : token ∈ tokens pieces) :
    token = .separator ∨ ∃ piece ∈ pieces, token = piece.token := by
  fun_induction tokens pieces with
  | case1 rest ih =>
    rcases List.mem_cons.1 h with rfl | h
    · exact .inl rfl
    · refine (ih h).imp_right fun ⟨piece, hpiece, htoken⟩ => ?_
      exact ⟨piece, List.mem_cons_of_mem _ (List.mem_cons_of_mem _ hpiece), htoken⟩
  | case2 piece rest _ ih =>
    rcases List.mem_cons.1 h with rfl | h
    · exact .inr ⟨piece, List.mem_cons_self, rfl⟩
    · refine (ih h).imp_right fun ⟨piece, hpiece, htoken⟩ => ?_
      exact ⟨piece, List.mem_cons_of_mem _ hpiece, htoken⟩
  | case3 => cases h

theorem head?_tokens {pieces : List Piece} {text : List Char}
    (h : (tokens pieces).head? = some (.part text)) :
    ∃ piece rest, pieces = piece :: rest ∧ piece.token = .part text := by
  fun_cases tokens pieces with
  | case1 rest => cases h
  | case2 piece rest hno =>
    rw [tokens, List.head?_cons, Option.some.injEq] at h
    · exact ⟨piece, rest, rfl, h⟩
    · exact hno
  | case3 => cases h

theorem token_bare_eq_part {c : Char} {text : List Char} :
    (Piece.bare c).token = .part text ↔
      isBlank c = false ∧ endsCommand c = false ∧ text = [c] := by
  simp only [Piece.token]
  split_ifs with hblank hends
  · simp [hblank]
  · simp [hends]
  · simp [hblank, hends, eq_comm]

/-- In a text without quotes no two tokens in a row are an `&` each. -/
theorem isChain_tokens (text : List Char) :
    (tokens (text.map .bare)).IsChain fun a b => ¬ (a = .part ['&'] ∧ b = .part ['&']) := by
  generalize hpieces : text.map Piece.bare = pieces
  fun_induction tokens pieces generalizing text with
  | case1 rest ih =>
    obtain ⟨_, after, rfl, -, hafter⟩ := List.map_eq_cons_iff.1 hpieces
    obtain ⟨_, after, rfl, -, hafter⟩ := List.map_eq_cons_iff.1 hafter
    refine List.isChain_cons.2 ⟨fun _ _ h => ?_, ih after hafter⟩
    cases h.1
  | case2 piece rest hno ih =>
    obtain ⟨c, after, rfl, rfl, hafter⟩ := List.map_eq_cons_iff.1 hpieces
    refine List.isChain_cons.2 ⟨?_, ih after hafter⟩
    rintro token htoken ⟨hc, rfl⟩
    obtain ⟨next, rest, rfl, hnext⟩ := head?_tokens htoken
    obtain ⟨d, _, rfl, rfl, -⟩ := List.map_eq_cons_iff.1 hafter
    obtain ⟨-, -, hc⟩ := token_bare_eq_part.1 hc
    obtain ⟨-, -, hd⟩ := token_bare_eq_part.1 hnext
    rw [List.cons.injEq] at hc hd
    exact hno rest (hc.1 ▸ rfl) (hd.1 ▸ rfl)
  | case3 => exact .nil

/-- A run of tokens that are a character each has the text that they are made of. -/
theorem eq_map_text {run : List Token} (h : ∀ token ∈ run, ∃ c, token = .part [c]) :
    run = (run.flatMap Token.text).map fun c => .part [c] := by
  induction run with
  | nil => rfl
  | cons token run ih =>
    obtain ⟨c, rfl⟩ := h token List.mem_cons_self
    exact congrArg (_ :: ·) (ih fun token htoken => h token (List.mem_cons_of_mem _ htoken))

/-- Where the words of a command stand among the tokens. -/
theorem run_of_mem_commands {tokens : List Token} {command : List (List Char)} {word : List Char}
    (hcommand : command ∈ commands tokens) (hword : word ∈ command) :
    ∃ run, run <:+: tokens ∧ run ≠ [] ∧ (∀ token ∈ run, token ≠ .blank ∧ token ≠ .separator) ∧
      run.flatMap Token.text = word := by
  obtain ⟨part, hpart, rfl⟩ := List.mem_map.1 (List.mem_filter.1 hcommand).1
  obtain ⟨run, hrun, rfl⟩ := List.mem_map.1 hword
  obtain ⟨hrun, hne⟩ := List.mem_filter.1 hrun
  obtain ⟨hpartInfix, hseparator⟩ := of_mem_splitOnP hpart
  obtain ⟨hrunInfix, hblank⟩ := of_mem_splitOnP hrun
  refine ⟨run, hrunInfix.trans hpartInfix, by simpa using hne, fun token htoken => ⟨?_, ?_⟩, rfl⟩
  · simpa using hblank token htoken
  · simpa using hseparator token (hrunInfix.subset htoken)

/-- A token of a text without quotes that does not stand between words is a character of the text. -/
theorem part_of_mem_tokens {text : List Char} {token : Token} (h : token ∈ tokens (text.map .bare))
    (hblank : token ≠ .blank) (hseparator : token ≠ .separator) :
    ∃ c ∈ text, token = .part [c] ∧ isBlank c = false ∧ endsCommand c = false := by
  obtain hand | ⟨piece, hpiece, rfl⟩ := mem_tokens h
  · exact absurd hand hseparator
  · obtain ⟨c, hc, rfl⟩ := List.mem_map.1 hpiece
    cases hkind : (Piece.bare c).token with
    | part part =>
      obtain ⟨hb, he, rfl⟩ := token_bare_eq_part.1 hkind
      exact ⟨c, hc, rfl, hb, he⟩
    | blank => exact absurd hkind hblank
    | separator => exact absurd hkind hseparator

/-- The words of a text without quotes are plain. -/
theorem plain_of_mem_commands {text word : List Char} {command : List (List Char)}
    (hquotes : text.countP isQuoting = 0) (hcommand : command ∈ commands (tokens (text.map .bare)))
    (hword : word ∈ command) : word ≠ [] ∧ Plain word := by
  obtain ⟨run, hrun, hne, hparts, rfl⟩ := run_of_mem_commands hcommand hword
  have hletter : ∀ token ∈ run, ∃ c ∈ text, token = .part [c] ∧ isBlank c = false ∧
      endsCommand c = false := by
    intro token htoken
    obtain ⟨hblank, hseparator⟩ := hparts token htoken
    exact part_of_mem_tokens (hrun.subset htoken) hblank hseparator
  have heq := eq_map_text fun token htoken =>
    let ⟨c, _, hc, _⟩ := hletter token htoken
    ⟨c, hc⟩
  have hword : ∀ c ∈ run.flatMap Token.text, c ∈ text ∧ isBlank c = false ∧
      endsCommand c = false := by
    intro c hc
    have hmem : Token.part [c] ∈ run := by
      rw [heq]
      exact List.mem_map_of_mem hc
    obtain ⟨d, hd, hcd, hkind⟩ := hletter _ hmem
    cases hcd
    exact ⟨hd, hkind⟩
  refine ⟨fun hnil => ?_, fun c hc => ?_, fun c hc => (hword c hc).2.1, fun c hc => (hword c hc).2.2,
    ?_⟩
  · rw [hnil] at heq
    exact hne heq
  · simpa using List.countP_eq_zero.1 hquotes c (hword c hc).1
  · have hchain := List.IsChain.infix (isChain_tokens text) hrun
    rw [heq, List.isChain_map] at hchain
    simpa using hchain

end JobOperator.Shell
