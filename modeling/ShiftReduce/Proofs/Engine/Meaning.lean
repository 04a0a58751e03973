import ShiftReduce.Proofs.Engine.Source
import ShiftReduce.Proofs.Engine.Termination

/-!
# Meanings

A meaning says what a slot may hold for a symbol that stands for some tokens. Where every production
makes a meaning of its left side out of meanings of its right side, without a complaint and without
touching the context, every tree is evaluated to a meaning of its leaves, and the slots of a run
are meanings at every moment, also while the stack is given up in error recovery. Read `Computes`
first.
-/

namespace ShiftReduce

variable {V C : Type} {m : Machine V C} {c fetched : Config V C} {stack : List (Frame V)}
  {trees : List ParseTree} {symbols : List Symbol} {tokens words : List Token}
  {slots : List (Slot V)} {token : Token} {i : Nat}

/-- What a slot may hold for a symbol that stands for some tokens. -/
abbrev Meaning (V : Type) := Symbol → List Token → Slot V → Prop

/-- Slots are meanings of symbols that stand for consecutive tokens. -/
def Meaning.All (M : Meaning V) : List Symbol → List Token → List (Slot V) → Prop
  | [], tokens, slots => tokens = [] ∧ slots = []
  | symbol :: symbols, tokens, slots =>
      ∃ front back slot later, tokens = front ++ back ∧ slots = slot :: later ∧
        M symbol front slot ∧ M.All symbols back later

/-- A level whose slot is a meaning of its symbol. -/
def Frame.Meant (M : Meaning V) (frame : Frame V) : Prop :=
  ∃ words, M frame.symbol words frame.slot

/-- The slots of levels are meanings together if each is one. -/
theorem Meaning.all_frames {M : Meaning V} {frames : List (Frame V)}
    (h : ∀ frame ∈ frames, frame.Meant M) :
    ∃ words, M.All (frames.map Frame.symbol) words (frames.map Frame.slot) := by
  induction frames with
  | nil => exact ⟨[], rfl, rfl⟩
  | cons frame frames ih =>
      obtain ⟨⟨front, hfront⟩, hframes⟩ := List.forall_mem_cons.mp h
      obtain ⟨back, hback⟩ := ih hframes
      exact ⟨front ++ back, front, back, _, _, rfl, rfl, hfront, hback⟩

/-- The reductions of a machine compute meanings: of tokens with some property, and of the left side
of each production from meanings of the right side. -/
structure Machine.Computes (m : Machine V C) (M : Meaning V) (P : Token → Prop) : Prop where
  token : ∀ {token : Token}, P token → M token.kind [token] (.token token)
  production : ∀ {i : Nat} {p : Production (Reduction V C)} {words : List Token}
    {slots : List (Slot V)} (context : C), m.grammar.production? i = some p →
      M.All p.symbols words slots → p.Succeeds slots context ∧
        ∃ slot, M (.nonterminal p.name) words slot ∧ p.reduced slots context = (slot, context)

namespace Machine.Computes

open ParseTree

variable {M : Meaning V} {P : Token → Prop}

/-- Trees are evaluated to meanings of their leaves, without a complaint and in the same context. -/
theorem evalAll (h : m.Computes M P) (context : C) (hparses : ParsesAll m.grammar trees symbols)
    (htokens : ∀ token ∈ yields trees, P token) :
    SmoothAll m.grammar trees context ∧
      ∃ slots, M.All symbols (yields trees) slots ∧
        ParseTree.evalAll m.grammar trees context = (slots, context) := by
  induction trees using forest_induction generalizing symbols with
  | hnil => exact ⟨trivial, [], by cases hparses; exact ⟨rfl, rfl⟩, rfl⟩
  | hleaf token trees ih =>
      obtain ⟨_, rest, rfl, ⟨rfl, _⟩, hparses⟩ := hparses
      obtain ⟨htoken, htokens⟩ := List.forall_mem_cons.mp htokens
      obtain ⟨hsmooth, slots, hslots, heval⟩ := ih hparses htokens
      refine ⟨⟨trivial, hsmooth⟩, .token token :: slots, ?_, ?_⟩
      · exact ⟨[token], _, _, _, rfl, rfl, h.token htoken, hslots⟩
      · rw [evalAll_cons, ParseTree.eval, heval]
  | hnode i children trees ihchildren ihtrees =>
      obtain ⟨_, rest, rfl, ⟨p, hp, rfl, hchildren⟩, hparses⟩ := hparses
      obtain ⟨hsmooth, slots, hslots, heval⟩ := ihchildren hchildren fun token hmem =>
        htokens token (List.mem_append_left _ hmem)
      obtain ⟨hlater, later, hmeant, hrest⟩ := ihtrees hparses fun token hmem =>
        htokens token (List.mem_append_right _ hmem)
      obtain ⟨hsucceeds, slot, hslot, hreduced⟩ := h.production context hp hslots
      have hnode : (node i children).eval m.grammar context = (slot, context) := by
        rw [eval_node hp, heval, hreduced]
      refine ⟨⟨⟨hsmooth, fun p' hp' => ?_⟩, ?_⟩, slot :: later, ?_, ?_⟩
      · cases hp.symm.trans hp'
        rwa [heval]
      · rwa [hnode]
      · exact ⟨yields children, _, _, _, rfl, rfl, hslot, hmeant⟩
      · rw [evalAll_cons, hnode, hrest]

/-- Trees with such leaves are evaluated without a complaint. -/
theorem smooth (h : m.Computes M P) : m.Smooth P :=
  fun context hparses htokens => (h.evalAll context hparses htokens).1

/-- A tree is evaluated to a meaning of its leaves. -/
theorem eval (h : m.Computes M P) {tree : ParseTree} {symbol : Symbol} (context : C)
    (hparses : tree.Parses m.grammar symbol) (htokens : ∀ token ∈ tree.yield, P token) :
    ∃ slot, M symbol tree.yield slot ∧ tree.eval m.grammar context = (slot, context) := by
  rw [← yields_singleton] at htokens ⊢
  obtain ⟨_, slots, ⟨front, back, slot, later, hwords, hslots, hslot, hnil, hnone⟩, heval⟩ :=
    h.evalAll context (parsesAll_singleton.mpr hparses) htokens
  obtain rfl : back = [] := hnil
  obtain rfl : later = [] := hnone
  rw [List.append_nil] at hwords
  refine ⟨slot, hwords ▸ hslot, ?_⟩
  rw [evalAll_singleton, hslots, Prod.mk.injEq] at heval
  exact Prod.ext (List.singleton_inj.mp heval.1) heval.2

/-- Where a right side is on top of meaningful levels, reducing it leaves a meaning and the
context. -/
theorem reduced (h : m.Computes M P) {stack : List (Frame V)}
    {p : Production (Reduction V C)} (context : C) (hp : m.grammar.production? i = some p)
    (hframes : ∀ frame ∈ stack, frame.Meant M)
    (htop : symbolsOf (stack.take p.length) = p.symbols) :
    p.Succeeds ((stack.take p.length).reverse.map Frame.slot) context ∧
      ∃ slot, (∃ words, M (.nonterminal p.name) words slot) ∧
        p.reduced ((stack.take p.length).reverse.map Frame.slot) context = (slot, context) := by
  have hmeant : ∀ frame ∈ (stack.take p.length).reverse, frame.Meant M := by
    intro frame hmem
    exact hframes frame (List.mem_of_mem_take (List.mem_reverse.mp hmem))
  obtain ⟨words, hwords⟩ := Meaning.all_frames hmeant
  rw [show (stack.take p.length).reverse.map Frame.symbol = p.symbols from htop] at hwords
  obtain ⟨hsucceeds, slot, hslot, hreduced⟩ := h.production context hp hwords
  exact ⟨hsucceeds, slot, ⟨words, hslot⟩, hreduced⟩

end Machine.Computes

/-- A handler that never resumes goes on with no token. -/
theorem Machine.Unwinds.not_resumesWith (h : m.Unwinds) (token : Token) :
    ¬ m.ResumesWith token := by
  rintro ⟨handler, context, offending, hhandler, hanswer⟩
  rw [h handler hhandler] at hanswer
  cases hanswer

namespace Engine

variable {M : Meaning V} {P : Token → Prop}

/-- A moment at which every slot is a meaning of its symbol, and all tokens that are still to be
read have a property, except the error token and the end of input. -/
structure Meaningful (m : Machine V C) (M : Meaning V) (P : Token → Prop) (c : Config V C) :
    Prop where
  levels : ∃ stack, c.Stacked stack ∧ Linked (Automaton.states m.grammar) stack ∧
    ∀ frame ∈ stack, frame.Meant M
  source : ∀ token, .ok token ∈ c.source → P token
  waiting : ∀ token ∈ c.waiting, P token ∨ token.kind = .error ∨ token.kind = .endOfInput

theorem meaningful_start {source : List (Except LexError Token)} (context : C)
    (hsource : ∀ token, .ok token ∈ source → P token) :
    Meaningful m M P { source, context } where
  levels := ⟨[], .start source context, .nil, fun _ hmem => absurd hmem List.not_mem_nil⟩
  source := hsource
  waiting := fun _ hmem => absurd hmem List.not_mem_nil

/-- The token that is looked at has the property, unless it is the error token or the end of
input. -/
theorem Meaningful.fetch (h : Meaningful m M P c) (hfetch : c.fetch = (.ok token, fetched)) :
    P token ∨ token.kind = .error ∨ token.kind = .endOfInput := by
  rcases (fetch_cases hfetch).1 with ⟨hmem, _⟩ | hread | ⟨hend, _⟩
  · exact h.waiting token hmem
  · exact Or.inl (h.source token (by rw [hread]; exact List.mem_cons_self))
  · exact Or.inr (Or.inr hend)

/-- What a step does on a token, on levels that are meanings: no reduction complains, and an error
is not resumed. -/
inductive Move (m : Machine V C) (M : Meaning V) (c : Config V C) (stack : List (Frame V))
    (token : Token) : Turn V C → Prop
  | shift {n : Nat} {events : List Event}
      (haction : m.table.actionOn (topState stack) token.kind = some (.shift n))
      (hevents : ∀ event ∈ (after events (shift c token n)).events, event.isError = false) :
      Move m M c stack token (after events (shift c token n))
  | reduce {i next : Nat} {p : Production (Reduction V C)} {slot : Slot V} {c' : Config V C}
      {events : List Event}
      (haction : m.table.actionOn (topState stack) token.kind = some (.reduce i))
      (hp : m.grammar.production? i = some p)
      (htop : symbolsOf (stack.take p.length) = p.symbols)
      (hslot : ∃ words, M (.nonterminal p.name) words slot)
      (hstack : c'.Stacked (⟨next, .nonterminal p.name, slot⟩ :: stack.drop p.length))
      (hkept : c'.context = c.context ∧ c'.pushback = c.pushback ∧ c'.source = c.source ∧
        c'.lookahead = some token ∧ c'.errorCount = c.errorCount)
      (hevents : ∀ event ∈ events, event.isError = false) :
      Move m M c stack token ⟨.running, c', events⟩
  | accept {events : List Event}
      (haction : m.table.actionOn (topState stack) token.kind = some .accept)
      (hevents : ∀ event ∈ events, event.isError = false) :
      Move m M c stack token
        ⟨.accepted (c.values.head?.bind Slot.value?), { c with values := c.values.tail }, events⟩
  | error {events : List Event}
      (hnone : m.table.actionOn (topState stack) token.kind = none) :
      Move m M c stack token (after events (error m c token))

/-- Every step on a token is such a move. -/
theorem move_step {method : Method} (hbuilt : m.Built method) (hcomputes : m.Computes M P)
    (hstack : c.Stacked stack) (hlinked : Linked (Automaton.states m.grammar) stack)
    (hframes : ∀ frame ∈ stack, frame.Meant M) (hfetch : c.fetch = (.ok token, fetched)) :
    Move m M fetched stack token (step m c) := by
  have hfetched := hstack.fetch hfetch
  rw [step_of_fetch hfetch, hfetched.state_eq]
  cases haction : m.table.actionOn (topState stack) token.kind with
  | none => exact .error haction
  | some action =>
      cases action with
      | shift n => exact .shift haction (by simp [after, shift, Event.isError])
      | accept => exact .accept haction (by simp [act, Event.isError])
      | reduce i =>
          obtain ⟨p, next, hp, hle, htop, hgoto⟩ :=
            exists_production?_of_reduce hbuilt hlinked haction
          obtain ⟨hsucceeds, slot, hslot, hreduced⟩ :=
            hcomputes.reduced fetched.context hp hframes htop
          obtain ⟨c', hstack', hcontext, hpushback, hsource, hlookahead, hcount, hreduce⟩ :=
            reduce_eq token hfetched hle hsucceeds hgoto hreduced
          simp only [act, hp]
          rw [hreduce]
          exact .reduce haction hp htop hslot hstack'
            ⟨hcontext, hpushback, hsource, hlookahead, hcount⟩ (by simp [Event.isError])

/-- Every step that leaves the run going keeps the slots meaningful. -/
theorem Meaningful.step (hbuilt : m.Built .lalr) (hends : Table.EndsNowhere m.grammar)
    (herror : Table.ErrorNowhere m.grammar) (hunwinds : m.Unwinds) (hcomputes : m.Computes M P)
    (h : Meaningful m M P c) (hfetch : c.fetch = (.ok token, fetched))
    (hrunning : (step m c).status = .running) : Meaningful m M P (step m c).config := by
  have hwaits := waits_step m hfetch
  obtain ⟨read, hread⟩ := source_of_step m hfetch
  refine ⟨?_, ?_, ?_⟩
  · obtain ⟨stack, hstack, hlinked, hframes⟩ := h.levels
    have hfetched := hstack.fetch hfetch
    have hmove := move_step hbuilt hcomputes hstack hlinked hframes hfetch
    obtain ⟨left, hleft, hlinked'⟩ :=
      aligned_step_of_running hbuilt ⟨stack, hstack, hlinked⟩ hrunning
    refine ⟨left, hleft, hlinked', ?_⟩
    generalize Engine.step m c = turn at hmove hleft hrunning
    cases hmove with
    | shift haction _ =>
        -- neither the error token nor the end of input is shifted
        have htoken : P token := by
          rcases h.fetch hfetch with htoken | hkind | hkind
          · exact htoken
          · rw [hkind, actionOn_error hbuilt herror] at haction
            cases haction
          · exact absurd hkind (ne_endOfInput_of_shift hbuilt hends haction)
        obtain rfl := hleft.unique (hfetched.shift token _)
        exact List.forall_mem_cons.mpr ⟨⟨_, hcomputes.token htoken⟩, hframes⟩
    | reduce _ _ _ hslot hstack' _ _ =>
        obtain rfl := hleft.unique hstack'
        exact List.forall_mem_cons.mpr
          ⟨hslot, fun frame hmem => hframes frame (List.mem_of_mem_drop hmem)⟩
    | accept _ _ => cases hrunning
    | error _ =>
        rcases hfetched.error m token with hsame | htail
        · obtain rfl := hleft.unique hsame
          exact hframes
        · obtain rfl := hleft.unique htail
          exact fun frame hmem => hframes frame (List.mem_of_mem_tail hmem)
  · intro other hmem
    exact h.source other (by rw [hread]; exact List.mem_append_right _ hmem)
  · intro other hmem
    rcases hwaits.waiting other hmem with hwaited | rfl | hkind | hresumed
    · exact h.waiting other ((fetch_cases hfetch).2 other hwaited)
    · exact h.fetch hfetch
    · exact Or.inr (Or.inl hkind)
    · exact absurd hresumed (hunwinds.not_resumesWith other)

end Engine

end ShiftReduce
