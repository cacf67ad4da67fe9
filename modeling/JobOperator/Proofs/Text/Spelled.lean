import JobOperator.Proofs.Text.Shell

/-!
Commands that are spelled out for a shell without quotes: words with a blank between them, commands
with `&&`. The shell reads them back as they are just if no word is empty or holds a sign of the shell.
For a word that holds one, nothing that the others hold can make up for what becomes of it: each
quoting character that the shell takes for one is lost, and without them every sign is taken for one.
-/

namespace JobOperator.Shell

/-! ### Words that are spelled out -/

/-- Commands as a script without quotes: words with a blank between them, commands with `&&`. -/
def spell (commands : List (List (List Char))) : List Char :=
  [' ', '&', '&', ' '].intercalate (commands.map [' '].intercalate)

theorem countP_intercalate {p : Char → Bool} {sep : List Char} (h : sep.countP p = 0)
    (texts : List (List Char)) : (sep.intercalate texts).countP p = texts.flatten.countP p := by
  induction texts with
  | nil => rfl
  | cons text rest ih =>
    cases rest with
    | nil => simp
    | cons next rest =>
      rw [List.intercalate_cons_cons, List.countP_append, List.countP_append, h, ih]
      simp only [List.flatten_cons, List.countP_append, Nat.add_zero]

/-- Spelling adds no quotes. -/
theorem countP_spell (commands : List (List (List Char))) :
    (spell commands).countP isQuoting = commands.flatten.flatten.countP isQuoting := by
  rw [spell, countP_intercalate (by decide), List.countP_flatten, List.map_map, List.flatten_flatten,
    List.countP_flatten, List.map_map]
  have hcommand (command : List (List Char)) :
      ([' '].intercalate command).countP isQuoting = command.flatten.countP isQuoting :=
    countP_intercalate (by decide) command
  simp only [Function.comp_def, hcommand]

/-- Only plain words are read back as they were spelled out. -/
theorem plain_of_reads {cmds : List (List (List Char))} (h : commands? (spell cmds) = some cmds) :
    ∀ command ∈ cmds, command ≠ [] ∧ ∀ word ∈ command, word ≠ [] ∧ Plain word := by
  obtain ⟨pieces, hpieces, hcmds⟩ := Option.map_eq_some_iff.1 h
  have hquotes : (spell cmds).countP isQuoting = 0 := by
    by_contra hquoting
    have hlt := countP_pieces_lt hpieces hquoting
    have hle := (text_tokens pieces).countP_le (p := isQuoting)
    rw [← flatten_commands, hcmds, ← countP_spell] at hle
    omega
  rw [pieces?_of_unquoted hquotes] at hpieces
  cases hpieces
  intro command hcommand
  rw [← hcmds] at hcommand
  refine ⟨?_, fun word hword => plain_of_mem_commands hquotes hcommand hword⟩
  have hne := (List.mem_filter.1 hcommand).2
  simpa using hne

theorem tokens_word {word : List Char} {rest : List Piece} (h : Plain word)
    (hrest : rest.head? ≠ some (.bare '&')) :
    tokens (word.map .bare ++ rest) = (word.map fun c => .part [c]) ++ tokens rest := by
  induction word with
  | nil => rfl
  | cons c word ih =>
    have htail : Plain word := (plain_append (a := [c]).1 h).2.1
    have hc : (Piece.bare c).token = .part [c] := token_bare_eq_part.2
      ⟨h.blank c List.mem_cons_self, h.endsCommand c List.mem_cons_self, rfl⟩
    have hnext : Piece.bare c = .bare '&' →
        (word.map Piece.bare ++ rest).head? ≠ some (.bare '&') := by
      rintro ⟨⟩
      cases word with
      | nil => exact hrest
      | cons d word =>
        rintro ⟨⟩
        exact (List.isChain_cons_cons.1 h.ands).1 ⟨rfl, rfl⟩
    rw [List.map_cons, List.cons_append, tokens_cons hnext, hc, ih htail]
    rfl

theorem tokens_blank (rest : List Piece) : tokens (.bare ' ' :: rest) = .blank :: tokens rest :=
  tokens_cons fun h => absurd h (by decide)

/-- The tokens of words with a blank between them. -/
def commandTokens (command : List (List Char)) : List Token :=
  [.blank].intercalate (command.map fun word => word.map fun c => .part [c])

theorem commandTokens_cons_cons (word next : List Char) (command : List (List Char)) :
    commandTokens (word :: next :: command) =
      (word.map fun c => .part [c]) ++ .blank :: commandTokens (next :: command) := by
  simp only [commandTokens, List.map_cons, List.intercalate_cons_cons, List.append_assoc,
    List.singleton_append]

theorem tokens_command {command : List (List Char)} {rest : List Piece}
    (h : ∀ word ∈ command, Plain word) (hrest : rest.head? ≠ some (.bare '&')) :
    tokens (([' '].intercalate command).map .bare ++ rest) = commandTokens command ++ tokens rest := by
  induction command with
  | nil => rfl
  | cons word command ih =>
    have hword := h word List.mem_cons_self
    cases command with
    | nil => simpa [commandTokens] using tokens_word hword hrest
    | cons next command =>
      have htail := ih fun word hword => h word (List.mem_cons_of_mem _ hword)
      rw [List.intercalate_cons_cons, List.append_assoc, List.map_append, List.append_assoc,
        tokens_word hword (by simp), commandTokens_cons_cons, List.append_assoc]
      refine congrArg (_ ++ ·) ?_
      exact (tokens_blank _).trans (congrArg (.blank :: ·) htail)

/-- The tokens of commands with `&&` between them. -/
def scriptTokens (commands : List (List (List Char))) : List Token :=
  [.blank, .separator, .blank].intercalate (commands.map commandTokens)

theorem scriptTokens_cons_cons (command next : List (List Char)) (cmds : List (List (List Char))) :
    scriptTokens (command :: next :: cmds) =
      (commandTokens command ++ [.blank]) ++ .separator :: .blank :: scriptTokens (next :: cmds) := by
  simp [scriptTokens, List.intercalate_cons_cons]

theorem tokens_spell {cmds : List (List (List Char))}
    (h : ∀ command ∈ cmds, ∀ word ∈ command, Plain word) :
    tokens ((spell cmds).map .bare) = scriptTokens cmds := by
  induction cmds with
  | nil => rfl
  | cons command cmds ih =>
    have hcommand := h command List.mem_cons_self
    cases cmds with
    | nil =>
      have hlast := @tokens_command command [] hcommand (by simp)
      simpa [spell, scriptTokens, tokens] using hlast
    | cons next cmds =>
      have htail := ih fun command hcommand => h command (List.mem_cons_of_mem _ hcommand)
      have hands (rest : List Piece) : tokens (.bare ' ' :: .bare '&' :: .bare '&' :: .bare ' ' :: rest) =
          .blank :: .separator :: .blank :: tokens rest := by
        rw [tokens_blank, tokens, tokens_blank]
      rw [scriptTokens_cons_cons, ← htail, spell, List.map_cons, List.map_cons,
        List.intercalate_cons_cons, List.append_assoc, List.map_append,
        tokens_command hcommand (by simp), List.append_assoc]
      exact congrArg _ (hands _)

/-! ### Reading them back -/

theorem words_append_blank (before after : List Token) :
    words (before ++ .blank :: after) = words before ++ words after := by
  rw [words, stretches_append_cons rfl, List.map_append, words, words]

/-- Blanks around a command do not matter. -/
theorem words_blank (command : List Token) : words (.blank :: command) = words command :=
  words_append_blank [] command

theorem words_parts {word : List Char} (h : word ≠ []) :
    words (word.map fun c => .part [c]) = [word] := by
  have hparts : ∀ token ∈ word.map fun c => Token.part [c], (token == .blank) = false := by
    intro token htoken
    obtain ⟨c, -, rfl⟩ := List.mem_map.1 htoken
    rfl
  rw [words, stretches_of_forall hparts (by simpa using h), List.map_singleton, List.flatMap_map]
  simp [Token.text]

theorem words_commandTokens {command : List (List Char)} (h : ∀ word ∈ command, word ≠ []) :
    words (commandTokens command) = command := by
  induction command with
  | nil => rfl
  | cons word command ih =>
    have hword := words_parts (h word List.mem_cons_self)
    cases command with
    | nil => simpa [commandTokens] using hword
    | cons next command =>
      rw [commandTokens_cons_cons, words_append_blank, hword,
        ih fun word hword => h word (List.mem_cons_of_mem _ hword)]
      rfl

theorem commands_append_separator (before after : List Token) :
    commands (before ++ .separator :: after) = commands before ++ commands after := by
  rw [commands, List.splitOnP_append_cons before after rfl, List.map_append, List.filter_append,
    commands, commands]

theorem commands_blank (tokens : List Token) : commands (.blank :: tokens) = commands tokens := by
  obtain ⟨first, rest, heq⟩ := List.exists_cons_of_ne_nil (List.splitOnP_ne_nil (· == .separator) tokens)
  have hsplit : (Token.blank :: tokens).splitOnP (· == .separator) = (.blank :: first) :: rest := by
    rw [List.splitOnP_cons_eq_if_modifyHead, heq]
    rfl
  rw [commands, commands, hsplit, heq, List.map_cons, words_blank, List.map_cons]

theorem commands_of_notMem {tokens : List Token} (h : .separator ∉ tokens)
    (hne : words tokens ≠ []) : commands tokens = [words tokens] := by
  have hall : ∀ token ∈ tokens, (token == .separator) = false := fun token htoken =>
    beq_false_of_ne fun heq => h (heq ▸ htoken)
  rw [commands, List.splitOnP_eq_singleton hall]
  simpa using hne

theorem separator_notMem_commandTokens (command : List (List Char)) :
    .separator ∉ commandTokens command := by
  induction command with
  | nil => exact List.not_mem_nil
  | cons word command ih =>
    cases command with
    | nil => simp [commandTokens]
    | cons next command =>
      rw [commandTokens_cons_cons, List.mem_append, List.mem_cons]
      rintro (hword | hblank | htail)
      · simp at hword
      · cases hblank
      · exact ih htail

theorem commands_scriptTokens {cmds : List (List (List Char))}
    (h : ∀ command ∈ cmds, command ≠ [] ∧ ∀ word ∈ command, word ≠ []) :
    commands (scriptTokens cmds) = cmds := by
  induction cmds with
  | nil => rfl
  | cons command cmds ih =>
    obtain ⟨hne, hwordsNe⟩ := h command List.mem_cons_self
    have hwords := words_commandTokens hwordsNe
    have hsep := separator_notMem_commandTokens command
    cases cmds with
    | nil =>
      have hfirst := commands_of_notMem hsep (hwords.symm ▸ hne)
      rw [hwords] at hfirst
      simpa [scriptTokens] using hfirst
    | cons next cmds =>
      have hblank : words (commandTokens command ++ [.blank]) = command := by
        rw [words_append_blank, hwords]
        exact List.append_nil command
      have hfirst : commands (commandTokens command ++ [.blank]) = [_] :=
        commands_of_notMem (by simpa using hsep) (hblank.symm ▸ hne)
      rw [scriptTokens_cons_cons, commands_append_separator, commands_blank, hfirst, hblank,
        ih fun command hcommand => h command (List.mem_cons_of_mem _ hcommand)]
      rfl

/-- Commands that are spelled out without quotes are read back just if all their words are plain. -/
theorem reads_spelled_iff {cmds : List (List (List Char))} :
    commands? (spell cmds) = some cmds ↔
      ∀ command ∈ cmds, command ≠ [] ∧ ∀ word ∈ command, word ≠ [] ∧ Plain word := by
  refine ⟨plain_of_reads, fun h => ?_⟩
  have hplain : ∀ command ∈ cmds, ∀ word ∈ command, Plain word :=
    fun command hcommand word hword => ((h command hcommand).2 word hword).2
  have hquotes : (spell cmds).countP isQuoting = 0 := by
    rw [countP_spell, List.countP_eq_zero]
    intro c hc
    obtain ⟨word, hword, hc⟩ := List.mem_flatten.1 hc
    obtain ⟨command, hcommand, hword⟩ := List.mem_flatten.1 hword
    simp [(hplain command hcommand word hword).quoting c hc]
  rw [commands?, pieces?_of_unquoted hquotes, Option.map_some, tokens_spell hplain,
    commands_scriptTokens fun command hcommand =>
      ⟨(h command hcommand).1, fun word hword => ((h command hcommand).2 word hword).1⟩]

end JobOperator.Shell
