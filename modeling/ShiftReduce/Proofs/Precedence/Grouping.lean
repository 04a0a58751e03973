import ShiftReduce.Lexer.Token
import ShiftReduce.Precedence

/-!
# Grouping by precedence

Numbers with binary operators between them can be grouped in many ways. `WellGrouped` says which
grouping the precedences ask for: the operator on top of a left group binds tighter than the one it
stands beside, or as tight and to the left, and likewise on the right. `group` finds it by reading
from left to right and choosing between an operator and the one before it as a parser does. Read
`group_eq_some_iff` first.
-/

namespace ShiftReduce

/-- A number, or an operator between two groups. -/
inductive Grouping where
  | number (token : Token)
  | apply (left : Grouping) (operator : Token) (right : Grouping)

/-- Whether a precedence is above another: on a higher level, or on the same level with the given
associativity. -/
def Precedence.Above (side : Assoc) (p q : Precedence) : Prop :=
  q.level < p.level ∨ p.level = q.level ∧ p.assoc = side

/-- Each level has one associativity. -/
def Levelled (prec : Symbol → Precedence) : Prop :=
  ∀ s t, (prec s).level = (prec t).level → (prec s).assoc = (prec t).assoc

namespace Grouping

/-- The operator that stands between the two groups of a group. -/
def root? : Grouping → Option Token
  | number _ => none
  | apply _ operator _ => some operator

/-- The tokens of a group in order. -/
def yield : Grouping → List Token
  | number token => [token]
  | apply left operator right => left.yield ++ operator :: right.yield

/-- Whether the operators are grouped as their precedences ask for: the operator of a left group is
above the one behind it to the left, and that of a right group above the one before it to the
right. -/
def WellGrouped (prec : Symbol → Precedence) : Grouping → Prop
  | number _ => True
  | apply left operator right =>
      (∀ p ∈ left.root?, (prec p.kind).Above .left (prec operator.kind)) ∧
      (∀ p ∈ right.root?, (prec p.kind).Above .right (prec operator.kind)) ∧
      left.WellGrouped prec ∧ right.WellGrouped prec

/-- The first number of a group. -/
def first : Grouping → Token
  | number token => token
  | apply left _ _ => left.first

/-- The operators of a group in order, each with the number behind it. -/
def more : Grouping → List (Token × Token)
  | number _ => []
  | apply left operator right => left.more ++ (operator, right.first) :: right.more

end Grouping

/-- The tokens of a number and of operators with a number behind each. -/
def line (first : Token) (more : List (Token × Token)) : List Token :=
  first :: more.flatMap fun pair => [pair.1, pair.2]

/-- Groups that wait for what comes behind an operator, the last one first. -/
abbrev Pending := List (Grouping × Token)

namespace Pending

/-- Puts together what waits, with a group behind all of it. -/
def finish : Pending → Grouping → Grouping
  | [], group => group
  | (left, operator) :: below, group => finish below (.apply left operator group)

/-- The tokens of what waits. -/
def yield : Pending → List Token
  | [] => []
  | (left, operator) :: below => yield below ++ left.yield ++ [operator]

/-- Before an operator is read: puts together what waits for a group as long as the operators ask
for it. There is no answer if two operators do not group. -/
def absorb (prec : Symbol → Precedence) (next : Token) : Pending → Grouping →
    Option (Pending × Grouping)
  | [], group => some ([], group)
  | (left, operator) :: below, group =>
      match (prec next.kind).resolve (prec operator.kind) with
      | .shift => some ((left, operator) :: below, group)
      | .reduce => absorb prec next below (.apply left operator group)
      | .neither => none

/-- Groups a number and the operators and numbers behind it. -/
def group (prec : Symbol → Precedence) : Pending → Grouping → List (Token × Token) →
    Option Grouping
  | pending, tree, [] => some (pending.finish tree)
  | pending, tree, (operator, number) :: more =>
      match pending.absorb prec operator tree with
      | none => none
      | some (pending, tree) => group prec ((tree, operator) :: pending) (.number number) more

end Pending

variable {prec : Symbol → Precedence} {pending rest : Pending} {tree found : Grouping}
  {first next operator : Token} {more : List (Token × Token)}

/-! ## Comparing precedences -/

/-- Reducing wins over an operator that the one before it is above of to the left. -/
theorem Precedence.resolve_eq_reduce {shift reduce : Precedence} :
    shift.resolve reduce = .reduce ↔ reduce.Above .left shift := by
  unfold resolve Above
  split
  · simp
    omega
  · split
    · simp
      omega
    · have hlevel : reduce.level = shift.level := by omega
      cases reduce.assoc <;> simp [hlevel]

/-- Shifting wins where the operator is above the one before it to the right. -/
theorem Levelled.resolve_eq_shift (h : Levelled prec) {s t : Symbol} :
    (prec s).resolve (prec t) = .shift ↔ (prec s).Above .right (prec t) := by
  unfold Precedence.resolve Precedence.Above
  split
  · simp [*]
  · split
    · simp
      omega
    · have hlevel : (prec s).level = (prec t).level := by omega
      have hassoc := h s t hlevel
      cases hcase : (prec t).assoc <;> simp [hlevel, hassoc, hcase]

/-- What is above an operator to the right is above everything that the operator is above of to the
left, and so to the left. -/
theorem Levelled.above_left (h : Levelled prec) {s t u : Symbol}
    (hinner : (prec s).Above .right (prec t)) (houter : (prec t).Above .left (prec u)) :
    (prec s).Above .left (prec u) := by
  rcases hinner with hlt | ⟨heq, hright⟩
  · rcases houter with hlt' | ⟨heq', _⟩
    · exact Or.inl (Nat.lt_trans hlt' hlt)
    · exact Or.inl (heq' ▸ hlt)
  · rcases houter with hlt' | ⟨_, hleft⟩
    · exact Or.inl (heq ▸ hlt')
    · rw [h s t heq, hleft] at hright
      cases hright

/-- The same with the sides exchanged. -/
theorem Levelled.above_right (h : Levelled prec) {s t u : Symbol}
    (hinner : (prec s).Above .left (prec t)) (houter : (prec t).Above .right (prec u)) :
    (prec s).Above .right (prec u) := by
  rcases hinner with hlt | ⟨heq, hleft⟩
  · rcases houter with hlt' | ⟨heq', _⟩
    · exact Or.inl (Nat.lt_trans hlt' hlt)
    · exact Or.inl (heq' ▸ hlt)
  · rcases houter with hlt' | ⟨_, hright⟩
    · exact Or.inl (heq ▸ hlt')
    · rw [h s t heq, hright] at hleft
      cases hleft

/-! ## Reading a group that is well grouped -/

namespace Grouping

/-- What waits when a group was read up to its last number. -/
def spine : Grouping → Pending
  | number _ => []
  | apply left operator right => right.spine ++ [(left, operator)]

/-- The last number of a group. -/
def last : Grouping → Grouping
  | number token => number token
  | apply _ _ right => right.last

theorem finish_spine (tree : Grouping) (rest : Pending) :
    (tree.spine ++ rest).finish tree.last = rest.finish tree := by
  induction tree generalizing rest with
  | number token => rfl
  | apply left operator right _ ih =>
      rw [spine, List.append_assoc]
      exact ih ((left, operator) :: rest)

/-- Before an operator that a group is above of, the group is put together. -/
theorem absorb_spine (h : Levelled prec) (hgrouped : tree.WellGrouped prec)
    (hroot : ∀ p ∈ tree.root?, (prec p.kind).Above .left (prec next.kind)) (rest : Pending) :
    (tree.spine ++ rest).absorb prec next tree.last = rest.absorb prec next tree := by
  induction tree generalizing rest with
  | number token => rfl
  | apply left operator right _ ih =>
      obtain ⟨_, hright, _, hinner⟩ := hgrouped
      have habove := hroot operator rfl
      rw [spine, List.append_assoc]
      refine (ih hinner (fun p hp => h.above_left (hright p hp) habove) _).trans ?_
      rw [List.singleton_append, Pending.absorb, Precedence.resolve_eq_reduce.mpr habove]

end Grouping

namespace Pending

/-- An operator that is above the last operator that waits, to the right. -/
def Fits (prec : Symbol → Precedence) (next : Token) (pending : Pending) : Prop :=
  ∀ entry ∈ pending.head?, (prec next.kind).Above .right (prec entry.2.kind)

/-- Before an operator that fits nothing is put together. -/
theorem absorb_of_fits (h : Levelled prec) (hfits : pending.Fits prec next) (tree : Grouping) :
    pending.absorb prec next tree = some (pending, tree) := by
  cases pending with
  | nil => rfl
  | cons entry below =>
      rw [absorb, h.resolve_eq_shift.mpr (hfits entry rfl)]

/-- A group that is well grouped is read up to its last number, behind anything that its operator
fits. -/
theorem group_read (h : Levelled prec) (hgrouped : tree.WellGrouped prec)
    (hfits : ∀ p ∈ tree.root?, rest.Fits prec p) (more : List (Token × Token)) :
    rest.group prec (.number tree.first) (tree.more ++ more) =
      group prec (tree.spine ++ rest) tree.last more := by
  induction tree generalizing rest more with
  | number token => rfl
  | apply left operator right ihleft ihright =>
      obtain ⟨hleft, hright, hgroupedLeft, hgroupedRight⟩ := hgrouped
      have hfitsHere := hfits operator rfl
      have hfitsLeft : ∀ p ∈ left.root?, rest.Fits prec p := fun p hp entry hentry =>
        h.above_right (hleft p hp) (hfitsHere entry hentry)
      rw [Grouping.more, List.append_assoc, Grouping.first, ihleft hgroupedLeft hfitsLeft]
      -- before the operator the left group is put together, and nothing else
      have habsorb : (left.spine ++ rest).absorb prec operator left.last = some (rest, left) :=
        (Grouping.absorb_spine h hgroupedLeft hleft rest).trans (absorb_of_fits h hfitsHere left)
      rw [List.cons_append, group]
      simp only [habsorb]
      rw [ihright hgroupedRight fun p hp entry hentry => by cases hentry; exact hright p hp,
        Grouping.spine, List.append_assoc]
      rfl

/-! ## What is grouped is well grouped -/

/-- What waits can be put together, whatever fitting group comes behind. -/
def Ready (prec : Symbol → Precedence) : Pending → Prop
  | [] => True
  | (left, operator) :: below =>
      (∀ p ∈ left.root?, (prec p.kind).Above .left (prec operator.kind)) ∧
      left.WellGrouped prec ∧ Fits prec operator below ∧ Ready prec below

/-- A group behind what waits for it. -/
structure Sound (prec : Symbol → Precedence) (pending : Pending) (tree : Grouping) : Prop where
  ready : pending.Ready prec
  grouped : tree.WellGrouped prec
  fits : ∀ p ∈ tree.root?, pending.Fits prec p

theorem Sound.apply {left : Grouping} (h : Sound prec ((left, operator) :: rest) tree) :
    Sound prec rest (.apply left operator tree) := by
  obtain ⟨⟨habove, hgrouped, hfits, hready⟩, htree, hroot⟩ := h
  refine ⟨hready, ⟨habove, fun p hp => hroot p hp _ rfl, hgrouped, htree⟩, ?_⟩
  rintro p hp
  cases hp
  exact hfits

theorem Sound.finish (h : Sound prec pending tree) :
    (pending.finish tree).WellGrouped prec ∧
      (pending.finish tree).yield = pending.yield ++ tree.yield := by
  induction pending generalizing tree with
  | nil => exact ⟨h.grouped, rfl⟩
  | cons entry below ih =>
      obtain ⟨hgrouped, hyield⟩ := ih h.apply
      refine ⟨hgrouped, hyield.trans ?_⟩
      simp [Grouping.yield, yield]

/-- What is left before an operator takes the operator in. -/
theorem Sound.absorb (hlevelled : Levelled prec) {pending' : Pending} {tree' : Grouping}
    (h : Sound prec pending tree)
    (hroot : ∀ p ∈ tree.root?, (prec p.kind).Above .left (prec next.kind))
    (habsorb : pending.absorb prec next tree = some (pending', tree')) (number : Token) :
    Sound prec ((tree', next) :: pending') (.number number) ∧
      pending'.yield ++ tree'.yield = pending.yield ++ tree.yield := by
  have hpush : ∀ {pending : Pending} {tree : Grouping}, Sound prec pending tree →
      (∀ p ∈ tree.root?, (prec p.kind).Above .left (prec next.kind)) → pending.Fits prec next →
      Sound prec ((tree, next) :: pending) (.number number) := fun h hroot hfits =>
    ⟨⟨hroot, h.grouped, hfits, h.ready⟩, trivial, fun p hp => nomatch hp⟩
  induction pending generalizing tree with
  | nil =>
      cases habsorb
      exact ⟨hpush h hroot fun entry hentry => (nomatch hentry), rfl⟩
  | cons entry below ih =>
      obtain ⟨left, operator⟩ := entry
      rw [Pending.absorb] at habsorb
      split at habsorb
      · rename_i hshift
        cases habsorb
        refine ⟨hpush h hroot fun entry hentry => ?_, rfl⟩
        cases hentry
        exact hlevelled.resolve_eq_shift.mp hshift
      · rename_i hreduce
        obtain ⟨hsound, hyield⟩ := ih h.apply
          (fun p hp => by cases hp; exact Precedence.resolve_eq_reduce.mp hreduce) habsorb
        exact ⟨hsound, hyield.trans (by simp [Grouping.yield, yield])⟩
      · cases habsorb

theorem Sound.group (hlevelled : Levelled prec) {number : Token}
    (h : Sound prec pending (.number number))
    (hgroup : pending.group prec (.number number) more = some found) :
    found.WellGrouped prec ∧ found.yield = pending.yield ++ line number more := by
  induction more generalizing pending number with
  | nil =>
      cases hgroup
      exact h.finish
  | cons pair more ih =>
      obtain ⟨operator, next⟩ := pair
      rw [Pending.group] at hgroup
      split at hgroup
      · cases hgroup
      · rename_i pending' tree' habsorb
        obtain ⟨hsound, hyield⟩ :=
          h.absorb hlevelled (fun p hp => nomatch hp) habsorb next
        obtain ⟨hgrouped, hline⟩ := ih hsound hgroup
        refine ⟨hgrouped, hline.trans ?_⟩
        rw [yield, hyield]
        simp [line, Grouping.yield]

end Pending

/-! ## The one grouping -/

theorem Grouping.yield_eq_line (tree : Grouping) : tree.yield = line tree.first tree.more := by
  induction tree with
  | number token => rfl
  | apply left operator right ihleft ihright =>
      rw [yield, ihleft, ihright]
      simp [line, first, more]

theorem line_injective {first' : Token} {more' : List (Token × Token)}
    (h : line first more = line first' more') : first = first' ∧ more = more' := by
  induction more generalizing first first' more' with
  | nil =>
      cases more' with
      | nil => exact ⟨(List.cons.inj h).1, rfl⟩
      | cons pair more' => cases h
  | cons pair more ih =>
      cases more' with
      | nil => cases h
      | cons pair' more' =>
          obtain ⟨hfirst, htail⟩ := List.cons.inj h
          obtain ⟨hoperator, hrest⟩ := List.cons.inj htail
          obtain ⟨hnumber, hmore⟩ := ih hrest
          exact ⟨hfirst, by rw [Prod.ext hoperator hnumber, hmore]⟩

/-- Reading from left to right finds the grouping that is well grouped, and no other. -/
theorem group_eq_some_iff (h : Levelled prec) :
    Pending.group prec [] (.number first) more = some tree ↔
      tree.WellGrouped prec ∧ tree.yield = line first more := by
  constructor
  · intro hgroup
    have hstart : Pending.Sound prec [] (.number first) :=
      ⟨trivial, trivial, fun p hp => nomatch hp⟩
    exact hstart.group h hgroup
  · rintro ⟨hgrouped, hyield⟩
    rw [tree.yield_eq_line] at hyield
    obtain ⟨rfl, rfl⟩ := line_injective hyield
    have hread : Pending.group prec [] (.number tree.first) (tree.more ++ []) =
        Pending.group prec (tree.spine ++ []) tree.last [] :=
      Pending.group_read h hgrouped (fun p _ entry hentry => by cases hentry) []
    rw [List.append_nil, List.append_nil] at hread
    have hfinish := tree.finish_spine []
    rw [List.append_nil] at hfinish
    rw [hread, Pending.group, hfinish]
    rfl

end ShiftReduce
