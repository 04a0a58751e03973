import ShiftReduce.Proofs.GrammarFile.Layout
import ShiftReduce.Proofs.RuleText.Verdict

/-!
# Rules as they are written

The words of a rule are the texts of its tokens, wherever lines end, so that the lexer cuts the
lines of a rule into them and the rule is read back. Read `RuleDecl.Lines.exists_texts`.
-/

namespace ShiftReduce

namespace RuleText

open Text (Padding Spaced Firm Solid isBlank isWordChar)

variable {word line after rest : List Char} {words : List (List Char)} {c : Char}
  {item : Symbol × String} {items : List (Symbol × String)} {alt : Alternative}
  {alts : List Alternative} {name : String}

/-! ## Characters of names -/

/-- The characters of names are those of ASCII, so one can be checked by trying all. -/
theorem nameInside_induction {P : Char → Prop}
    (hascii : ∀ n < 128, nameInside.holds (Char.ofNat n) = true → P (Char.ofNat n))
    (h : nameInside.holds c = true) : P c := by
  have hbound : c.toNat < 128 := by
    by_contra hlarge
    have hout : ∀ first last : Char, last.toNat < 128 →
        ClassPart.holds c (.span first last) = false := by
      intro first last hlast
      simp only [ClassPart.holds, Bool.and_eq_false_iff, decide_eq_false_iff_not]
      omega
    simp [CharClass.holds, nameInside, hout _ 'z' (by decide), hout _ 'Z' (by decide),
      hout _ '_' (by decide), hout _ '9' (by decide)] at h
  rw [← Char.ofNat_toNat c] at h ⊢
  exact hascii _ hbound h

/-- A character of a name belongs to words, and is neither blank nor a line feed. -/
theorem of_nameInside (h : nameInside.holds c = true) :
    isWordChar c = true ∧ isBlank c = false ∧ c ≠ '\n' :=
  nameInside_induction (P := fun c => isWordChar c = true ∧ isBlank c = false ∧ c ≠ '\n')
    (by decide) h

/-- What begins a name may stand inside one. -/
theorem nameInside_of_nameStart (h : nameStart.holds c = true) : nameInside.holds c = true := by
  simp only [CharClass.holds, nameStart, nameInside, List.any_cons, List.any_nil, Bool.bne_false,
    Bool.or_false, Bool.or_eq_true] at h ⊢
  tauto

/-- The characters of a name. -/
theorem exists_of_isName (h : isName name = true) : ∃ c run, name.toList = c :: run ∧
    nameStart.holds c = true ∧ ∀ d ∈ run, nameInside.holds d = true := by
  unfold isName at h
  split at h
  · cases h
  · rename_i c run hname
    rw [Bool.and_eq_true, List.all_eq_true] at h
    exact ⟨c, run, hname, h.1, h.2⟩

theorem nameInside_of_isName (h : isName name = true) :
    name.toList ≠ [] ∧ ∀ c ∈ name.toList, nameInside.holds c = true := by
  obtain ⟨c, run, hname, hstart, hrun⟩ := exists_of_isName h
  rw [hname]
  refine ⟨List.cons_ne_nil _ _, fun d hd => ?_⟩
  rcases List.mem_cons.mp hd with rfl | hd
  · exact nameInside_of_nameStart hstart
  · exact hrun d hd

/-- A name is a word without blanks. -/
theorem solid_of_isName (h : isName name = true) : Solid name.toList := by
  obtain ⟨hne, hinside⟩ := nameInside_of_isName h
  exact ⟨hne, fun c hmem => (of_nameInside (hinside c hmem)).2.1⟩

/-! ## Words of rules -/

/-- A word of a rule, with the kind and the text of its token. -/
inductive RuleWord : List Char → Symbol × String → Prop
  | name {name : String} : isName name = true → RuleWord name.toList (.token "ID", name)
  | literal {quote c : Char} : quote = '"' ∨ quote = '\'' → c ≠ '\n' →
      RuleWord [quote, c, quote] (.token "LITERAL", String.ofList [c])
  | mark : RuleWord "%prec".toList (.token "PREC", "%prec")
  | sign {c : Char} : c = ':' ∨ c = '|' → RuleWord [c] (.literal c, String.ofList [c])

theorem RuleWord.firm (h : RuleWord word item) : Firm word := by
  cases h with
  | name hname => exact (solid_of_isName hname).firm
  | literal hquote _ =>
      rcases hquote with rfl | rfl
      · exact ⟨⟨'"', rfl, by decide⟩, '"', rfl, by decide⟩
      · exact ⟨⟨'\'', rfl, by decide⟩, '\'', rfl, by decide⟩
  | mark => exact (Text.solid_of_all (by decide)).firm
  | sign hsign =>
      rcases hsign with rfl | rfl <;> exact (Text.solid_of_all (by decide)).firm

theorem RuleWord.no_feed (h : RuleWord word item) : '\n' ∉ word := by
  cases h with
  | name hname =>
      exact fun hmem => (of_nameInside ((nameInside_of_isName hname).2 _ hmem)).2.2 rfl
  | literal hquote hc => rcases hquote with rfl | rfl <;> simpa using hc.symm
  | mark => decide
  | sign hsign => rcases hsign with rfl | rfl <;> decide

/-- The lexer cuts off a word that does not run into what follows. -/
theorem RuleWord.piece (h : RuleWord word item) (hrest : ∀ c ∈ rest.head?, Apart word c) :
    Piece (word ++ rest) rest (some item) := by
  cases h with
  | @name name hname =>
      obtain ⟨c, run, hsplit, hstart, hrun⟩ := exists_of_isName hname
      have hinside := (nameInside_of_isName hname).2
      rw [hsplit] at hrest hinside ⊢
      rw [← String.ofList_toList (s := name), hsplit]
      refine .name hstart hrun fun d hd => Bool.eq_false_iff.mpr fun hbad => ?_
      have hlast := of_nameInside (hinside _ (List.getLast_mem (List.cons_ne_nil c run)))
      have happart := hrest d hd _ (List.getLast?_eq_some_getLast (List.cons_ne_nil c run)) hlast.1
      rw [(of_nameInside hbad).1] at happart
      cases happart
  | literal hquote hc => exact .literal hquote hc
  | mark =>
      have hword : isWordChar 'c' = true := by decide
      exact .mark fun c hc => hrest c hc 'c' rfl hword
  | sign hsign => exact .sign hsign

/-! ## Cutting lines -/

/-- Spaces and tabs are passed over. -/
theorem cut_padding {before : List Char} (h : Padding before) (hcut : Cut rest items) :
    Cut (before ++ rest) items := by
  induction before with
  | nil => exact hcut
  | cons c before ih =>
      have hblank : c ∈ [' ', '\t', '\r', '\n'] := by
        rcases h c List.mem_cons_self with rfl | rfl <;> decide
      exact .piece (.blank hblank) (ih fun d hmem => h d (List.mem_cons_of_mem _ hmem))

/-- A line is cut into its words. -/
theorem cut_spaced (h : Spaced Apart words line) {later : List (Symbol × String)}
    (hwords : List.Forall₂ RuleWord words items) (hcut : Cut after later)
    (hafter : ∀ c ∈ after.head?, isWordChar c = false) : Cut (line ++ after) (items ++ later) := by
  induction h generalizing items with
  | nil hpadding =>
      cases hwords
      exact cut_padding hpadding hcut
  | @cons before word rest words hbefore hapart _ ih =>
      obtain ⟨item, items, hword, hothers, rfl⟩ := List.forall₂_cons_left_iff.mp hwords
      have hrest : ∀ c ∈ (rest ++ after).head?, Apart word c := by
        intro c hc
        rw [List.head?_append, Option.mem_def, Option.or_eq_some_iff] at hc
        rcases hc with hc | ⟨_, hc⟩
        · exact hapart c hc
        · exact fun _ _ _ => hafter c hc
      rw [List.append_assoc, List.append_assoc]
      exact cut_padding hbefore (.piece (hword.piece hrest) (ih hothers))

/-- Lines, with a line feed before each but the first. -/
abbrev continued (line : List Char) (lines : List (List Char)) : List Char :=
  line ++ lines.flatMap ('\n' :: ·)

/-- Lines are cut into the words of each. -/
theorem cut_continued {more : List (List (List Char))} {lines : List (List Char)}
    {moreItems : List (List (Symbol × String))} (h : Spaced Apart words line)
    (hmore : List.Forall₂ (Spaced Apart) more lines) (hwords : List.Forall₂ RuleWord words items)
    (hmoreWords : List.Forall₂ (List.Forall₂ RuleWord) more moreItems) :
    Cut (continued line lines) (items ++ moreItems.flatten) := by
  induction hmore generalizing words line items moreItems with
  | nil =>
      cases hmoreWords
      exact cut_spaced h hwords .nil (by simp)
  | @cons next line' more lines hnext _ ih =>
      obtain ⟨nextItems, moreItems, hnextWords, hothers, rfl⟩ :=
        List.forall₂_cons_left_iff.mp hmoreWords
      refine cut_spaced h hwords (.piece (.blank (by simp)) (ih hnext hnextWords hothers)) ?_
      intro c hc
      obtain rfl := Option.some.inj hc
      decide

/-! ## Tokens of words -/

/-- The kind and the text of a token. -/
abbrev itemOf (token : Token) : Symbol × String :=
  (token.kind, token.text)

/-- A symbol's word is one of a rule, and its token spells the symbol. -/
theorem exists_item_symbol {s : Symbol} (hs : s.Writable (· ≠ '\n')) (h : s.Word word) :
    ∃ item, RuleWord word item ∧ ∀ token, itemOf token = item → token.Spells s := by
  cases h with
  | @token name =>
      refine ⟨_, .name hs.1, fun token htoken => ?_⟩
      obtain ⟨hkind, rfl⟩ := Prod.mk.inj htoken
      rw [← hs.2]
      exact .name hkind
  | @nonterminal name =>
      refine ⟨_, .name hs.1, fun token htoken => ?_⟩
      obtain ⟨hkind, rfl⟩ := Prod.mk.inj htoken
      rw [← hs.2]
      exact .name hkind
  | literal hquote =>
      refine ⟨_, .literal hquote hs, fun token htoken => ?_⟩
      obtain ⟨hkind, htext⟩ := Prod.mk.inj htoken
      exact .literal hkind htext

theorem exists_items_symbols {symbols : List Symbol} (h : List.Forall₂ Symbol.Word symbols words)
    (hsymbols : ∀ s ∈ symbols, s.Writable (· ≠ '\n')) :
    ∃ items, List.Forall₂ RuleWord words items ∧
      ∀ tokens, tokens.map itemOf = items → List.Forall₂ Token.Spells tokens symbols := by
  induction h with
  | nil =>
      refine ⟨[], .nil, fun tokens htokens => ?_⟩
      rw [List.map_eq_nil_iff.mp htokens]
      exact .nil
  | cons hword _ ih =>
      obtain ⟨item, hitem, hspells⟩ := exists_item_symbol (hsymbols _ List.mem_cons_self) hword
      obtain ⟨items, hitems, hspellsAll⟩ :=
        ih fun s hmem => hsymbols s (List.mem_cons_of_mem _ hmem)
      refine ⟨item :: items, .cons hitem hitems, fun tokens htokens => ?_⟩
      obtain ⟨token, tokens, rfl, htoken, htokens⟩ := List.map_eq_cons_iff.mp htokens
      exact .cons (hspells token htoken) (hspellsAll tokens htokens)

/-- An alternative's words are words of a rule, and their tokens spell the alternative. -/
theorem exists_items_alternative (h : alt.Words words) (halt : alt.Writable) :
    ∃ items, List.Forall₂ RuleWord words items ∧
      ∀ tokens, tokens.map itemOf = items → SpellsAlternative tokens alt := by
  cases h with
  | plain hsymbols =>
      obtain ⟨items, hitems, hspells⟩ := exists_items_symbols hsymbols halt.symbols
      exact ⟨items, hitems, fun tokens htokens => .plain (hspells tokens htokens)⟩
  | @tagged symbols words tag hsymbols =>
      obtain ⟨items, hitems, hspells⟩ := exists_items_symbols hsymbols halt.symbols
      obtain ⟨htag, hne⟩ := halt.tag tag rfl
      refine ⟨items ++ [(.token "PREC", "%prec"), (.token "ID", tag)],
        List.rel_append hitems (.cons .mark (.cons (.name htag) .nil)), fun tokens htokens => ?_⟩
      obtain ⟨front, back, rfl, hfront, hback⟩ := List.map_eq_append_iff.mp htokens
      obtain ⟨mark, back, rfl, hmark, hback⟩ := List.map_eq_cons_iff.mp hback
      obtain ⟨last, back, rfl, hlast, hback⟩ := List.map_eq_cons_iff.mp hback
      obtain rfl := List.map_eq_nil_iff.mp hback
      obtain ⟨hkind, rfl⟩ := Prod.mk.inj hlast
      have hfrontSpells := hspells front hfront
      refine .tagged hfrontSpells ?_ (Prod.mk.inj hmark).1 hkind
      rintro rfl
      exact hne (List.forall₂_nil_left_iff.mp hfrontSpells)

/-- What corresponds to the last element is the last. -/
theorem exists_of_forall₂_concat {α β : Type} {r : α → β → Prop} {xs : List α} {x : α} {ys : List β}
    (h : List.Forall₂ r (xs ++ [x]) ys) :
    ∃ front last, List.Forall₂ r xs front ∧ r x last ∧ ys = front ++ [last] := by
  have hfront := (List.forall₂_take_append ys xs [x] h.flip).flip
  have hback := (List.forall₂_drop_append ys xs [x] h.flip).flip
  obtain ⟨last, _, hlast, hnil, hdrop⟩ := List.forall₂_cons_left_iff.mp hback
  obtain rfl := List.forall₂_nil_left_iff.mp hnil
  exact ⟨_, last, hfront, hlast, by rw [← hdrop, List.take_append_drop]⟩

/-- Tokens that spell a rule of some name. -/
def SpellsNamed (name : String) (tokens : List Token) (alts : List Alternative) : Prop :=
  ∃ first colon rest, tokens = first :: colon :: rest ∧ itemOf first = (.token "ID", name) ∧
    colon.kind = .literal ':' ∧ SpellsAlternatives rest alts

/-- One more alternative behind a bar. -/
theorem SpellsNamed.more {alts : List Alternative} {before later : List (Symbol × String)}
    (hbefore : ∀ tokens, tokens.map itemOf = before → SpellsNamed name tokens alts)
    (hlater : ∀ tokens, tokens.map itemOf = later → SpellsAlternative tokens alt)
    {tokens : List Token} (h : tokens.map itemOf = before ++ (.literal '|', "|") :: later) :
    SpellsNamed name tokens (alts ++ [alt]) := by
  obtain ⟨front, back, rfl, hfront, hback⟩ := List.map_eq_append_iff.mp h
  obtain ⟨bar, back, rfl, hbar, hback⟩ := List.map_eq_cons_iff.mp hback
  obtain ⟨first, colon, rest, rfl, hfirst, hcolon, hspells⟩ := hbefore front hfront
  exact ⟨first, colon, rest ++ bar :: back, by simp, hfirst, hcolon,
    .more hspells (Prod.mk.inj hbar).1 (hlater back hback)⟩

/-- The words of a rule, wherever its lines end, are words of rules, and their tokens spell the
rule. -/
theorem exists_items_rule {lines : List (List (List Char))} (h : RuleDecl.Words name alts lines)
    (hname : isName name = true) (halts : ∀ alt ∈ alts, alt.Writable) :
    ∃ items, List.Forall₂ (List.Forall₂ RuleWord) lines items ∧
      ∀ tokens, tokens.map itemOf = items.flatten → SpellsNamed name tokens alts := by
  have hbar : RuleWord ['|'] (.literal '|', "|") := .sign (Or.inr rfl)
  induction h with
  | first halt =>
      obtain ⟨items, hitems, hspells⟩ := exists_items_alternative halt (halts _ (by simp))
      refine ⟨[(.token "ID", name) :: (.literal ':', ":") :: items],
        .cons (.cons (.name hname) (.cons (.sign (Or.inl rfl)) hitems)) .nil,
        fun tokens htokens => ?_⟩
      rw [List.flatten_singleton] at htokens
      obtain ⟨first, tokens, rfl, hfirst, htokens⟩ := List.map_eq_cons_iff.mp htokens
      obtain ⟨colon, tokens, rfl, hcolon, htokens⟩ := List.map_eq_cons_iff.mp htokens
      exact ⟨first, colon, tokens, rfl, hfirst, (Prod.mk.inj hcolon).1, .first (hspells _ htokens)⟩
  | @sameLine alts lines line words alt _ halt ih =>
      obtain ⟨items, hitems, hspells⟩ := ih fun other hmem => halts other (by simp [hmem])
      obtain ⟨later, hlater, hlaterSpells⟩ := exists_items_alternative halt (halts _ (by simp))
      obtain ⟨front, last, hfront, hlast, rfl⟩ := exists_of_forall₂_concat hitems
      refine ⟨front ++ [last ++ (.literal '|', "|") :: later],
        List.rel_append hfront (.cons (List.rel_append hlast (.cons hbar hlater)) .nil),
        fun tokens htokens => .more hspells hlaterSpells ?_⟩
      simpa using htokens
  | @nextLine alts lines words alt _ halt ih =>
      obtain ⟨items, hitems, hspells⟩ := ih fun other hmem => halts other (by simp [hmem])
      obtain ⟨later, hlater, hlaterSpells⟩ := exists_items_alternative halt (halts _ (by simp))
      refine ⟨items ++ [(.literal '|', "|") :: later],
        List.rel_append hitems (.cons (.cons hbar hlater) .nil),
        fun tokens htokens => .more hspells hlaterSpells ?_⟩
      simpa using htokens

/-! ## Trimmed lines -/

/-- The words of a rule are firm, and hold no line feed. -/
theorem of_ruleWords (h : List.Forall₂ RuleWord words items) :
    ∀ word ∈ words, Firm word ∧ '\n' ∉ word := by
  induction h with
  | nil => simp
  | cons hword _ ih =>
      intro other hmem
      rcases List.mem_cons.mp hmem with rfl | hmem
      · exact ⟨hword.firm, hword.no_feed⟩
      · exact ih other hmem

/-- A trimmed line of a rule holds the same words. -/
theorem exists_trim_line (h : Spaced Apart (word :: words) line)
    (hwords : List.Forall₂ RuleWord (word :: words) items) :
    '\n' ∉ line ∧ ∃ rest, Text.trim (String.ofList line) = String.ofList (word ++ rest) ∧
      Spaced Apart (word :: words) (word ++ rest) := by
  have hall := of_ruleWords hwords
  obtain ⟨rest, htrim, hapart, hrest⟩ := h.exists_trim fun other hmem => (hall other hmem).1
  have hnone : Padding [] := by simp [Padding]
  exact ⟨h.no_feed fun other hmem => (hall other hmem).2, rest, htrim, .cons hnone hapart hrest⟩

/-- The trimmed lines behind the first line of a rule begin with bars. -/
theorem exists_trim_lines {more : List (List (List Char))} {lines : List (List Char)}
    {moreItems : List (List (Symbol × String))} (h : List.Forall₂ (Spaced Apart) more lines)
    (hwords : List.Forall₂ (List.Forall₂ RuleWord) more moreItems)
    (hbars : ∀ words ∈ more, ∃ others, words = ['|'] :: others) :
    (∀ line ∈ lines, '\n' ∉ line) ∧ ∃ texts : List (List Char),
      lines.map (fun line => Text.trim (String.ofList line)) = texts.map String.ofList ∧
        List.Forall₂ (Spaced Apart) more texts ∧ ∀ text ∈ texts, ∃ rest, text = '|' :: rest := by
  induction h generalizing moreItems with
  | nil => exact ⟨by simp, [], rfl, .nil, by simp⟩
  | @cons words line more lines hline _ ih =>
      obtain ⟨items, moreItems, hitems, hothers, rfl⟩ := List.forall₂_cons_left_iff.mp hwords
      obtain ⟨others, rfl⟩ := hbars words List.mem_cons_self
      obtain ⟨hfeed, rest, htrim, hspaced⟩ := exists_trim_line hline hitems
      obtain ⟨hfeeds, texts, htrims, hspacedAll, htexts⟩ :=
        ih hothers fun words hmem => hbars words (List.mem_cons_of_mem _ hmem)
      refine ⟨List.forall_mem_cons.mpr ⟨hfeed, hfeeds⟩, (['|'] ++ rest) :: texts, ?_,
        .cons hspaced hspacedAll, List.forall_mem_cons.mpr ⟨⟨rest, rfl⟩, htexts⟩⟩
      rw [List.map_cons, List.map_cons, htrim, htrims]

/-- The first line of a rule begins with its name, and the others begin with bars. -/
theorem exists_words {lines : List (List (List Char))} (h : RuleDecl.Words name alts lines) :
    ∃ words more, lines = (name.toList :: words) :: more ∧
      ∀ words ∈ more, ∃ others, words = ['|'] :: others := by
  induction h with
  | first _ => exact ⟨_, [], rfl, by simp⟩
  | @sameLine _ lines line words _ _ _ ih =>
      obtain ⟨first, more, hlines, hbars⟩ := ih
      cases lines with
      | nil =>
          obtain ⟨rfl, rfl⟩ := List.cons.inj hlines
          exact ⟨first ++ ['|'] :: words, [], rfl, by simp⟩
      | cons front lines =>
          obtain ⟨rfl, rfl⟩ := List.cons.inj hlines
          refine ⟨first, lines ++ [line ++ ['|'] :: words], rfl, fun other hmem => ?_⟩
          rcases List.mem_append.mp hmem with hmem | hmem
          · exact hbars other (List.mem_append_left _ hmem)
          · obtain ⟨others, rfl⟩ := hbars line (by simp)
            exact ⟨others ++ ['|'] :: words, List.mem_singleton.mp hmem⟩
  | @nextLine _ lines words _ _ _ ih =>
      obtain ⟨first, more, rfl, hbars⟩ := ih
      refine ⟨first, more ++ [['|'] :: words], rfl, fun other hmem => ?_⟩
      rcases List.mem_append.mp hmem with hmem | hmem
      · exact hbars other hmem
      · exact ⟨words, List.mem_singleton.mp hmem⟩

/-- Text that is cut into words whose tokens spell a rule is read as that rule. -/
theorem parse_of_cut {text : List Char} (hcut : Cut text items)
    (hspells : ∀ tokens, tokens.map itemOf = items → SpellsNamed name tokens alts) :
    parse (String.ofList text) = .ok ⟨name, alts⟩ := by
  obtain ⟨_, hsound, hfuel⟩ := tokens_spec (String.ofList text)
  have hlength := length_lt_fuelFor (String.ofList text)
  rw [String.toList_ofList] at hlength
  obtain ⟨tokens, hscan, hitems⟩ :=
    scan_of_cut hcut (by rw [← String.toList_ofList (l := text)]; exact .start _)
      (show text.length < fuelFor (String.ofList text) by omega)
  have htokens : reader.lexer.tokens (fuelFor (String.ofList text)) (String.ofList text) =
      tokens.map .ok := by
    rw [lexer_reader]
    exact hscan
  obtain ⟨first, colon, rest, rfl, hfirst, hcolon, halts⟩ := hspells tokens hitems
  obtain ⟨hkind, rfl⟩ := Prod.mk.inj hfirst
  rw [htokens] at hsound hfuel
  rw [parse_eq, htokens]
  exact verdict_of_spells hsound (.rule hkind hcolon halts) (finished hsound hfuel)

end RuleText

/-- The trimmed lines of a rule, put together, are read as the rule. The first begins with a name,
and the others begin with bars. -/
theorem RuleDecl.Lines.exists_texts {rule : RuleDecl} {lines : List (List Char)}
    (h : rule.Lines lines) (hrule : rule.Writable) :
    (∀ line ∈ lines, '\n' ∉ line) ∧ ∃ c rest texts,
      lines.map (fun line => Text.trim (String.ofList line)) =
        String.ofList (c :: rest) :: texts.map String.ofList ∧
      RuleText.nameStart.holds c = true ∧ (∀ text ∈ texts, ∃ rest, text = '|' :: rest) ∧
      RuleText.parse (String.ofList (RuleText.continued (c :: rest) texts)) = .ok rule := by
  obtain ⟨words, hwords, hspaced⟩ := h
  obtain ⟨items, hitems, hspells⟩ :=
    RuleText.exists_items_rule hwords hrule.name hrule.alternatives
  obtain ⟨first, more, rfl, hbars⟩ := RuleText.exists_words hwords
  obtain ⟨line, lines, hline, hmore, rfl⟩ := List.forall₂_cons_left_iff.mp hspaced
  obtain ⟨lineItems, moreItems, hlineItems, hmoreItems, rfl⟩ := List.forall₂_cons_left_iff.mp hitems
  obtain ⟨hfeed, rest, htrim, htrimmed⟩ := RuleText.exists_trim_line hline hlineItems
  obtain ⟨hfeeds, texts, htrims, htexts, hfirst⟩ :=
    RuleText.exists_trim_lines hmore hmoreItems hbars
  obtain ⟨c, run, hname, hstart, _⟩ := RuleText.exists_of_isName hrule.name
  have hcut := RuleText.cut_continued htrimmed htexts hlineItems hmoreItems
  have hparse := RuleText.parse_of_cut hcut hspells
  rw [hname, List.cons_append] at hparse htrim
  refine ⟨List.forall_mem_cons.mpr ⟨hfeed, hfeeds⟩, c, run ++ rest, texts, ?_, hstart, hfirst,
    hparse⟩
  rw [List.map_cons, htrim, htrims]

end ShiftReduce
