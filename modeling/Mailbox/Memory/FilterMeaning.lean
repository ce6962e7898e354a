import Mathlib.Data.String.Basic
import Mailbox.Memory.Query

/-!
# What filters mean

A filter names a field, an operator and a value.  `Holds` says what it means, in terms of what the
field contains and what the value stands for.  `matchesFilter` goes by a field table and a
comparison of dynamically typed values, with defaults in both.

**Where it arrives.**  On texts every operator but `contains` does what it means (`text_iff`).  On
the other kinds of fields some filters are ignored, some never match: `Understood` lists the rest,
and `matchesFilters_iff` says that the list is complete.

**Where it does not.**  The body is not in the field table.  `contains` is known on lists only, and
on lists little else is.  Flags and statuses are not ordered, a status is neither the string that
`StatusIs` compares it with nor ever empty, a time differs from the same time in another location,
and one that is not set is not different from any other.
-/

namespace Mailbox.Memory

open List Option

/-! ## Fields and values -/

/-- What a field contains, and what a value stands for.  A status is its string. -/
inductive Content where
  | text (s : String)
  | flag (b : Bool)
  | time (t : Time)
  | texts (l : List String)

namespace Content

/-- Texts and lists of texts are ordered lexicographically, `false` comes before `true`. -/
def Lt : Content → Content → Prop
  | .text a, .text b => a < b
  | .flag a, .flag b => a < b
  | .time a, .time b => a < b
  | .texts a, .texts b => a < b
  | _, _ => False

def Le (a b : Content) : Prop := a.Lt b ∨ a = b

def IsEmpty : Content → Prop
  | .text s => s = ""
  | .texts l => l = []
  | _ => False

end Content

/-- What a field contains; a time may not be set. -/
def content (m : Message) : FieldKey → Option Content
  | .id => some (.text m.id)
  | .ownerID => some (.text m.ownerID)
  | .senderID => some (.text m.senderID)
  | .recipientIDs => some (.texts m.recipientIDs)
  | .subject => some (.text m.subject)
  | .body => some (.text m.body)
  | .status => some (.text m.status.name)
  | .isRead => some (.flag m.isRead)
  | .folderID => some (.text m.folderID)
  | .tags => some (.texts m.tags)
  | .createdAt => some (.time m.createdAt)
  | .updatedAt => some (.time m.updatedAt)
  | .threadID => some (.text m.threadID)
  | .replyToID => some (.text m.replyToID)
  | .externalID => some (.text m.externalID)
  | .isDraft => some (.flag m.isDraft)
  | .expiresAt => m.expiresAt.map .time
  | .availableAt => m.availableAt.map .time

/-- What a value stands for. -/
def standsFor : Value → Option Content
  | .str s => some (.text s)
  | .status s => some (.text s.name)
  | .bool b => some (.flag b)
  | .time t _ => some (.time t)
  | .strs l => some (.texts l)
  | _ => none

/-- The values of `In` and `NotIn`. -/
def elements : Value → List Value
  | .list l => l
  | _ => []

/-! ## Meaning -/

/-- The field is set, and relates to the value. -/
def Relates (r : Content → Content → Prop) (field : Option Content) (v : Value) : Prop :=
  ∃ x c, field = some x ∧ standsFor v = some c ∧ r x c

/-- What an operator means. -/
def Means (field : Option Content) (v : Value) : Operator → Prop
  | .eq => Relates (· = ·) field v
  | .ne => ¬ Relates (· = ·) field v
  | .lt => Relates Content.Lt field v
  | .lte => Relates Content.Le field v
  | .gt => Relates (fun x c => c.Lt x) field v
  | .gte => Relates (fun x c => c.Le x) field v
  | .isIn => ∃ w ∈ elements v, Relates (· = ·) field w
  | .nin => ∀ w ∈ elements v, ¬ Relates (· = ·) field w
  | .exists => v = .bool true ↔ ∃ x, field = some x ∧ ¬ x.IsEmpty
  | .contains => ∃ l s, field = some (.texts l) ∧ v = .str s ∧ s ∈ l

/-- What a filter means. -/
def Holds (m : Message) : Filter → Prop
  | .zero => True
  | .mk key op v => Means (content m key) v op

/-! ## Values of the field's type -/

inductive FieldKind where
  | text
  | flag
  | status
  | time
  | texts
  deriving DecidableEq

def kind : FieldKey → FieldKind
  | .recipientIDs | .tags => .texts
  | .status => .status
  | .isRead | .isDraft => .flag
  | .createdAt | .updatedAt | .expiresAt | .availableAt => .time
  | _ => .text

/-- The values of a field's type; a status also comes as its string. -/
def FieldKind.Accepts (v : Value) : FieldKind → Prop
  | .text => ∃ s, v = .str s
  | .flag => ∃ b, v = .bool b
  | .status => ∃ s : MessageStatus, v = .status s ∨ v = .str s.name
  | .time => ∃ t zone, v = .time t zone
  | .texts => ∃ l, v = .strs l

/-- A filter of the builder, with a value of the field's type: several for `In` and `NotIn`, an
element for `Contains` on a list, a `bool` for `Exists`. -/
def WellTyped : Filter → Prop
  | .zero => False
  | .mk key op v =>
    match op with
    | .exists => ∃ b, v = .bool b
    | .isIn | .nin => ∃ l, v = .list l ∧ ∀ w ∈ l, (kind key).Accepts w
    | .contains => if kind key = .texts then ∃ s, v = .str s else (kind key).Accepts v
    | _ => (kind key).Accepts v

/-! ## What is understood -/

/-- Comparisons that nothing fails. -/
def Idle (op : Operator) (v : Value) : Prop :=
  (op = .gte ∧ (v = .str "" ∨ v = .strs [])) ∨ (op = .nin ∧ v = .list [])

/-- Order comparisons that come out as for equal values, since the value is the least there is. -/
def AtLeast (least : Content) (op : Operator) (v : Value) : Prop :=
  (op = .lt ∨ op = .gte) ∧ standsFor v = some least

def AtGreatest (greatest : Content) (op : Operator) (v : Value) : Prop :=
  (op = .gt ∨ op = .lte) ∧ standsFor v = some greatest

/-- Equality and membership, with every value also in the one form in which it is found. -/
def InForm {γ : Type} (form : γ → Value) (op : Operator) (v : Value) : Prop :=
  ((op = .eq ∨ op = .ne) ∧ ∃ a, v = form a)
    ∨ ((op = .isIn ∨ op = .nin)
      ∧ ∀ w ∈ elements v, ∀ a, standsFor w = standsFor (form a) → form a ∈ elements v)

def IsOrder (op : Operator) : Prop := op = .lt ∨ op = .lte ∨ op = .gt ∨ op = .gte

/-- Equality, membership and existence. -/
def IsPlain (op : Operator) : Prop :=
  op = .eq ∨ op = .ne ∨ op = .isIn ∨ op = .nin ∨ op = .exists

/-- The filters that do what they mean. -/
def Understood : Filter → Prop
  | .zero => False
  | .mk key op v =>
    match key with
    | .body => Idle op v
    | .tags | .recipientIDs => op = .contains ∨ op = .exists ∨ op = .eq ∨ Idle op v
    | .isRead => IsPlain op ∨ AtLeast (.flag false) op v ∨ AtGreatest (.flag true) op v
    -- The flag of a message that is not a draft is `false`.
    | .isDraft => IsPlain op ∨ AtLeast (.flag false) op v ∨ op = .gt ∨ op = .lte
    | .status => InForm .status op v ∨ AtLeast (.text "") op v
    | .createdAt | .updatedAt => IsOrder op ∨ op = .exists ∨ InForm .utc op v
    | .expiresAt | .availableAt => IsOrder op ∨ op = .exists ∨ (op = .isIn ∧ v = .list [])
    | _ => op ≠ .contains

/-! ## Comparing values -/

lemma goEq_comm (a b : Value) : goEq a b = goEq b a := by
  cases a <;> cases b <;> simp [goEq, Bool.beq_comm]

variable {v : Value} {x : Content} {op : Operator} {key : FieldKey} {fieldValue : Value}
  {l : List Value}

lemma relates_some_iff {r : Content → Content → Prop} :
    Relates r (some x) v ↔ ∃ c, standsFor v = some c ∧ r x c := by
  simp [Relates]

lemma relates_eq_iff : Relates (· = ·) (some x) v ↔ standsFor v = some x := by
  simp [Relates]

lemma ne_iff {field : Option Content} : (matchesScalar fieldValue .ne v = true ↔ Means field v .ne)
      ↔ (matchesScalar fieldValue .eq v = true ↔ Means field v .eq) := by
  simp only [matchesScalar, Means, Bool.not_eq_true', ← Bool.not_eq_true, not_iff_not]

lemma nin_iff {field : Option Content} :
    (matchesScalar fieldValue .nin v = true ↔ Means field v .nin)
      ↔ (matchesScalar fieldValue .isIn v = true ↔ Means field v .isIn) := by
  have hmeans : Means field v .nin ↔ ¬ Means field v .isIn := by simp [Means]
  rw [hmeans]
  simp only [matchesScalar, Bool.not_eq_true', ← Bool.not_eq_true, not_iff_not]

/-- Existence, where the code's notion of an empty field is right. -/
lemma exists_holds (hempty : (goEq fieldValue (.str "") || goEq fieldValue .nil) = true ↔ x.IsEmpty)
    (b : Bool) :
    matchesScalar fieldValue .exists (.bool b) = true ↔ Means (some x) (.bool b) .exists := by
  simp only [matchesScalar, Means, boolValue, Value.bool.injEq, some.injEq,
    exists_eq_left', ← hempty]
  cases b <;> cases goEq fieldValue (.str "") <;> cases goEq fieldValue .nil <;> simp

/-- The order, where values are compared as they should be. -/
lemma order_holds {γ : Type} [LinearOrder γ] {wrap : γ → Content}
    (hlt : ∀ a b, (wrap a).Lt (wrap b) ↔ a < b) (hinj : Function.Injective wrap) {a b : γ}
    (hcompare : compareValues fieldValue v = compare a b) (hv : standsFor v = some (wrap b))
    (hop : IsOrder op) : matchesScalar fieldValue op v = true ↔ Means (some (wrap a)) v op := by
  have hle : ∀ a b, (wrap a).Le (wrap b) ↔ a ≤ b := fun a b => by
    rw [Content.Le, hlt, hinj.eq_iff, le_iff_lt_or_eq]
  rcases hop with rfl | rfl | rfl | rfl <;>
    simp only [matchesScalar, hcompare, Means, relates_some_iff, hv, some.injEq,
      exists_eq_left', hlt, hle, beq_iff_eq, bne_iff_ne]
  · exact compare_lt_iff_lt
  · exact compare_le_iff_le
  · exact compare_gt_iff_gt
  · exact compare_ge_iff_ge

lemma means_contains (hx : ∀ l, x ≠ .texts l) : ¬ Means (some x) v .contains := by
  rintro ⟨l, s, hl, -, -⟩
  exact hx l (some.inj hl)

/-- Values of type `γ` as they stand in a field: the content tells them apart, and what is equal to
one of them has the same form. -/
structure Form {γ : Type} (form : γ → Value) (wrap : γ → Content) : Prop where
  goEq_iff : ∀ a w, goEq (form a) w = true ↔ form a = w
  standsFor_form : ∀ a, standsFor (form a) = some (wrap a)
  injective : Function.Injective wrap

lemma form_str : Form Value.str Content.text where
  goEq_iff a w := by cases w <;> simp [goEq]
  standsFor_form _ := rfl
  injective _ _ h := Content.text.inj h

lemma form_bool : Form Value.bool Content.flag where
  goEq_iff a w := by cases w <;> simp [goEq]
  standsFor_form _ := rfl
  injective _ _ h := Content.flag.inj h

/-- A status is never equal to a string. -/
lemma form_status : Form Value.status fun s => Content.text s.name where
  goEq_iff a w := by cases w <;> simp [goEq]
  standsFor_form _ := rfl
  injective := by
    rintro ⟨a⟩ ⟨b⟩ h
    exact congrArg _ (Content.text.inj h)

/-- Nor is a time to one in another location. -/
lemma form_time (zone : Zone) : Form (Value.time · zone) Content.time where
  goEq_iff a w := by cases w <;> simp [goEq]
  standsFor_form _ := rfl
  injective _ _ h := Content.time.inj h

namespace Form

variable {γ : Type} {form : γ → Value} {wrap : γ → Content} (h : Form form wrap)

include h

lemma eq_iff (hv : ∃ a, standsFor v = some (wrap a)) :
    (∀ a, goEq (form a) v = true ↔ Relates (· = ·) (some (wrap a)) v) ↔ ∃ a, v = form a := by
  simp only [relates_eq_iff, h.goEq_iff]
  constructor
  · intro hall
    obtain ⟨a, ha⟩ := hv
    exact ⟨a, ((hall a).mpr ha).symm⟩
  · rintro ⟨b, rfl⟩ a
    constructor
    · intro hform
      rw [← hform, h.standsFor_form]
    · intro hwrap
      rw [h.standsFor_form, some.injEq] at hwrap
      rw [h.injective hwrap]

lemma valueInSet_iff (a : γ) : valueInSet (form a) (.list l) = true ↔ form a ∈ l := by
  simp [valueInSet, goEq_comm _ (form _), h.goEq_iff]

lemma mem_iff : (∀ a, valueInSet (form a) (.list l) = true
        ↔ ∃ w ∈ l, Relates (· = ·) (some (wrap a)) w)
      ↔ ∀ w ∈ l, ∀ a, standsFor w = standsFor (form a) → form a ∈ l := by
  simp only [relates_eq_iff, h.valueInSet_iff, h.standsFor_form]
  constructor
  · intro hall w hw a ha
    exact (hall a).mpr ⟨w, hw, ha⟩
  · intro hall a
    exact ⟨fun ha => ⟨_, ha, h.standsFor_form a⟩, fun ⟨w, hw, ha⟩ => hall w hw a ha⟩

/-- **Equality and membership** do what they mean exactly if the values have the field's form. -/
theorem holds_iff (hop : IsPlain op) (hexists : op ≠ .exists)
    (hone : op = .eq ∨ op = .ne → ∃ a, standsFor v = some (wrap a))
    (hmany : op = .isIn ∨ op = .nin → ∃ l, v = .list l) :
    (∀ a, matchesScalar (form a) op v = true ↔ Means (some (wrap a)) v op) ↔ InForm form op v := by
  rcases hop with rfl | rfl | rfl | rfl | rfl
  · exact (h.eq_iff (hone (.inl rfl))).trans (by simp [InForm])
  · simp only [ne_iff]
    exact (h.eq_iff (hone (.inr rfl))).trans (by simp [InForm])
  · obtain ⟨l, rfl⟩ := hmany (.inl rfl)
    exact h.mem_iff.trans (by simp [InForm, elements])
  · obtain ⟨l, rfl⟩ := hmany (.inr rfl)
    simp only [nin_iff]
    exact h.mem_iff.trans (by simp [InForm, elements])
  · exact absurd rfl hexists

/-- They have it if the field's type has no other. -/
lemma plain_holds (hkind : ∀ w, (kind key).Accepts w → ∃ a, w = form a)
    (hv : WellTyped (.mk key op v)) (hop : IsPlain op) (hexists : op ≠ .exists) (a : γ) :
    matchesScalar (form a) op v = true ↔ Means (some (wrap a)) v op := by
  have hgiven : ∀ l : List Value, (∀ w ∈ l, (kind key).Accepts w) →
      ∀ w ∈ l, ∀ a, standsFor w = standsFor (form a) → form a ∈ l := by
    intro l hl w hw a ha
    obtain ⟨b, rfl⟩ := hkind w (hl w hw)
    rw [h.standsFor_form, h.standsFor_form, some.injEq] at ha
    exact h.injective ha ▸ hw
  rcases hop with rfl | rfl | rfl | rfl | rfl
  · obtain ⟨b, rfl⟩ := hkind v hv
    exact (h.eq_iff ⟨b, h.standsFor_form b⟩).mpr ⟨b, rfl⟩ a
  · obtain ⟨b, rfl⟩ := hkind v hv
    exact ne_iff.mpr ((h.eq_iff ⟨b, h.standsFor_form b⟩).mpr ⟨b, rfl⟩ a)
  · obtain ⟨l, rfl, hl⟩ := hv
    exact h.mem_iff.mpr (hgiven l hl) a
  · obtain ⟨l, rfl, hl⟩ := hv
    exact nin_iff.mpr (h.mem_iff.mpr (hgiven l hl) a)
  · exact absurd rfl hexists

end Form

/-! ## Fields whose filters are skipped -/

/-- Values of type `γ`, as contents and as filter values: ordered, with a least one and no greatest
one. -/
structure Unbounded {γ : Type} [LinearOrder γ] (wrap : γ → Content) (val : γ → Value) (bot : γ) :
    Prop where
  standsFor_val : ∀ a, standsFor (val a) = some (wrap a)
  injective : Function.Injective wrap
  lt_iff : ∀ a b, (wrap a).Lt (wrap b) ↔ a < b
  bot_le : ∀ a, bot ≤ a
  noMax : ∀ a : γ, ∃ b, a < b

lemma unbounded_text : Unbounded Content.text Value.str "" where
  standsFor_val _ := rfl
  injective _ _ h := Content.text.inj h
  lt_iff _ _ := .rfl
  bot_le a := by
    exact not_lt_nil _
  noMax a := by
    refine ⟨a ++ "a", ?_⟩
    rw [String.lt_iff_toList_lt, String.toList_append]
    induction a.toList with
    | nil => exact nil_lt_cons _ _
    | cons c cs ih => exact cons_lt_cons_iff.mpr (.inr ⟨rfl, ih⟩)

lemma unbounded_texts : Unbounded Content.texts Value.strs [] where
  standsFor_val _ := rfl
  injective _ _ h := Content.texts.inj h
  lt_iff _ _ := .rfl
  bot_le a := by
    rw [← not_lt]
    exact not_lt_nil a
  noMax a := by
    refine ⟨a ++ [""], ?_⟩
    induction a with
    | nil => exact nil_lt_cons _ _
    | cons c cs ih => exact cons_lt_cons_iff.mpr (.inr ⟨rfl, ih⟩)

namespace Unbounded

variable {γ : Type} [LinearOrder γ] {wrap : γ → Content} {val : γ → Value} {bot : γ}

section

variable (h : Unbounded wrap val bot)

include h

lemma le_iff (a b : γ) : (wrap a).Le (wrap b) ↔ a ≤ b := by
  rw [Content.Le, h.lt_iff, h.injective.eq_iff, le_iff_lt_or_eq]

lemma relates_iff {r : Content → Content → Prop} (a b : γ) :
    Relates r (some (wrap a)) (val b) ↔ r (wrap a) (wrap b) := by
  simp [relates_some_iff, h.standsFor_val]

lemma exists_gt (l : List γ) : ∃ a, ∀ b ∈ l, b < a := by
  induction l with
  | nil => exact ⟨bot, by simp⟩
  | cons b l ih =>
    obtain ⟨a, ha⟩ := ih
    obtain ⟨c, hc⟩ := h.noMax (max a b)
    refine ⟨c, fun b' hb' => ?_⟩
    rcases mem_cons.mp hb' with rfl | hb'
    · exact (le_max_right _ _).trans_lt hc
    · exact (ha b' hb').trans ((le_max_left _ _).trans_lt hc)

/-- Nothing fails these two. -/
lemma means_gte_bot (a : γ) : Means (some (wrap a)) (val bot) .gte := by
  rw [Means, h.relates_iff]
  exact (h.le_iff bot a).mpr (h.bot_le a)

end

lemma means_nin_nil (x : Content) : Means (some x) (.list []) .nin := by
  simp [Means, elements]

/-- Nothing else is always the case. -/
lemma idle_of_always (h : Unbounded wrap val bot)
    (halways : ∀ a, Means (some (wrap a)) v op) (hop : op ≠ .exists ∧ op ≠ .contains)
    (hone : op ≠ .isIn → op ≠ .nin → ∃ a, v = val a)
    (hmany : op = .isIn ∨ op = .nin → ∃ l : List γ, v = .list (l.map val)) :
    (op = .gte ∧ v = val bot) ∨ (op = .nin ∧ v = .list []) := by
  cases op with
  | eq =>
    obtain ⟨a, rfl⟩ := hone (by simp) (by simp)
    obtain ⟨b, hb⟩ := h.noMax a
    have heq := (h.relates_iff b a).mp (halways b)
    exact absurd (h.injective heq) hb.ne'
  | ne =>
    obtain ⟨a, rfl⟩ := hone (by simp) (by simp)
    exact absurd ((h.relates_iff a a).mpr rfl) (halways a)
  | lt =>
    obtain ⟨a, rfl⟩ := hone (by simp) (by simp)
    exact absurd ((h.lt_iff a a).mp ((h.relates_iff a a).mp (halways a))) (lt_irrefl a)
  | lte =>
    obtain ⟨a, rfl⟩ := hone (by simp) (by simp)
    obtain ⟨b, hb⟩ := h.noMax a
    exact absurd ((h.le_iff b a).mp ((h.relates_iff b a).mp (halways b))) hb.not_ge
  | gt =>
    obtain ⟨a, rfl⟩ := hone (by simp) (by simp)
    have hgt := (h.relates_iff (r := fun x c => c.Lt x) a a).mp (halways a)
    exact absurd ((h.lt_iff a a).mp hgt) (lt_irrefl a)
  | gte =>
    obtain ⟨a, rfl⟩ := hone (by simp) (by simp)
    have hle := (h.le_iff a bot).mp ((h.relates_iff bot a).mp (halways bot))
    exact .inl ⟨rfl, by rw [le_antisymm hle (h.bot_le a)]⟩
  | isIn =>
    obtain ⟨l, rfl⟩ := hmany (by simp)
    obtain ⟨a, ha⟩ := h.exists_gt l
    obtain ⟨w, hw, hrelates⟩ := halways a
    obtain ⟨b, hb, rfl⟩ := mem_map.mp hw
    have heq := h.injective ((h.relates_iff a b).mp hrelates)
    exact absurd (heq ▸ ha b hb) (lt_irrefl _)
  | nin =>
    obtain ⟨l, rfl⟩ := hmany (by simp)
    cases l with
    | nil => exact .inr ⟨rfl, rfl⟩
    | cons a =>
      exact absurd ((h.relates_iff a a).mpr rfl) (halways a (val a) mem_cons_self)
  | «exists» => exact absurd rfl hop.1
  | contains => exact absurd rfl hop.2

end Unbounded

/-- The values of `In` and `NotIn`, when all of them are of one type. -/
lemma exists_map_of_forall {γ : Type} {val : γ → Value} (h : ∀ w ∈ l, ∃ a, w = val a) : ∃ l' : List
    γ, l = l'.map val := by
  induction l with
  | nil => exact ⟨[], rfl⟩
  | cons w l ih =>
    obtain ⟨a, rfl⟩ := h w mem_cons_self
    obtain ⟨l', rfl⟩ := ih fun w' hw' => h w' (mem_cons_of_mem _ hw')
    exact ⟨a :: l', rfl⟩

/-- The value of a well-typed filter that is not about existence or an element. -/
lemma value_of_wellTyped {γ : Type}
    (val : γ → Value) (hkind : ∀ w, (kind key).Accepts w → ∃ a, w = val a)
    (h : WellTyped (.mk key op v)) (hop : op ≠ .exists ∧ op ≠ .contains) :
    (op ≠ .isIn → op ≠ .nin → ∃ a, v = val a)
      ∧ (op = .isIn ∨ op = .nin → ∃ l : List γ, v = .list (l.map val)) := by
  have hmany : (∃ l, v = .list l ∧ ∀ w ∈ l, (kind key).Accepts w) →
      ∃ l : List γ, v = .list (l.map val) := by
    rintro ⟨l, rfl, hl⟩
    obtain ⟨l', rfl⟩ := exists_map_of_forall fun w hw => hkind w (hl w hw)
    exact ⟨l', rfl⟩
  cases op with
  | isIn | nin => exact ⟨by simp, fun _ => hmany h⟩
  | eq | ne | lt | lte | gt | gte => exact ⟨fun _ _ => hkind v h, by simp⟩
  | «exists» => exact absurd rfl hop.1
  | contains => exact absurd rfl hop.2

/-! ## Each field -/

/-- A text. -/
lemma text_iff (hkind : kind key = .text) (hv : WellTyped (.mk key op v)) (s : String) :
    (matchesScalar (.str s) op v = true ↔ Means (some (.text s)) v op) ↔ op ≠ .contains := by
  have hplain := form_str.plain_holds (by simp [hkind, FieldKind.Accepts]) hv
  cases op with
  | contains => exact iff_of_false (fun h => means_contains (by simp) (h.mp rfl)) (by simp)
  | eq | ne | isIn | nin => exact iff_of_true (hplain (by simp [IsPlain]) (by simp) s) (by simp)
  | «exists» =>
    obtain ⟨b, rfl⟩ := hv
    exact iff_of_true (exists_holds (by simp [goEq, Content.IsEmpty]) b) (by simp)
  | lt | lte | gt | gte =>
    obtain ⟨t, rfl⟩ : ∃ t, v = .str t := by simpa [WellTyped, hkind, FieldKind.Accepts] using hv
    exact iff_of_true (order_holds unbounded_text.lt_iff unbounded_text.injective rfl rfl
      (by simp [IsOrder])) (by simp)

/-- The order of times, in any locations, and their existence. -/
lemma time_holds (hkind : kind key = .time) (hv : WellTyped (.mk key op v))
    (hop : IsOrder op ∨ op = .exists) (t : Time) (zone : Zone) :
    matchesScalar (.time t zone) op v = true ↔ Means (some (.time t)) v op := by
  rcases hop with hop | rfl
  · obtain ⟨t', zone', rfl⟩ : ∃ t zone, v = .time t zone := by
      rcases hop with rfl | rfl | rfl | rfl <;> simpa [WellTyped, hkind, FieldKind.Accepts] using hv
    exact order_holds (fun _ _ => .rfl) (form_time zone).injective rfl rfl hop
  · obtain ⟨b, rfl⟩ := hv
    exact exists_holds (by simp [goEq, Content.IsEmpty]) b

/-- A time that is always set, and kept in UTC. -/
lemma time_iff (hkind : kind key = .time) (hv : WellTyped (.mk key op v)) :
    (∀ t, matchesScalar (.utc t) op v = true ↔ Means (some (.time t)) v op)
      ↔ IsOrder op ∨ op = .exists ∨ InForm .utc op v := by
  have hone : (kind key).Accepts v → ∃ t, standsFor v = some (.time t) := by
    rw [hkind]
    rintro ⟨t, zone, rfl⟩
    exact ⟨t, rfl⟩
  cases op with
  | contains =>
    refine iff_of_false (fun h => means_contains (by simp) ((h 0).mp rfl)) ?_
    simp [IsOrder, InForm]
  | lt | lte | gt | gte | «exists» =>
    exact iff_of_true (fun t => time_holds hkind hv (by simp [IsOrder]) t {}) (by simp [IsOrder])
  | eq | ne =>
    refine ((form_time {}).holds_iff (by simp [IsPlain]) (by simp) (fun _ => hone hv)
      (by simp)).trans ?_
    simp [IsOrder]
  | isIn | nin =>
    obtain ⟨l, rfl, -⟩ := hv
    refine ((form_time {}).holds_iff (by simp [IsPlain]) (by simp) (by simp)
      fun _ => ⟨l, rfl⟩).trans ?_
    simp [IsOrder]

/-- Some location is not among those of a list. -/
lemma exists_zone (l : List Value) : ∃ zone, ∀ t, .time t zone ∉ l := by
  have hbound : ∃ n, ∀ k t, .time t { loc := some k } ∈ l → k < n := by
    induction l with
    | nil => exact ⟨0, by simp⟩
    | cons w l ih =>
      obtain ⟨n, hn⟩ := ih
      rcases w with _ | _ | _ | _ | _ | _ | ⟨t₀, zone⟩ | _ | _ | _ | _ | _
      case time =>
        refine ⟨max n ((zone.loc.getD 0) + 1), fun k t hmem => ?_⟩
        rcases mem_cons.mp hmem with heq | hmem
        · cases heq
          simp
        · exact (hn k t hmem).trans_le (le_max_left _ _)
      all_goals exact ⟨n, by simpa using hn⟩
  obtain ⟨n, hn⟩ := hbound
  exact ⟨{ loc := some n }, fun t hmem => absurd (hn n t hmem) (lt_irrefl n)⟩

/-- A time that may not be set, and is kept as it was given. -/
lemma optionalTime_iff (hkind : kind key = .time) (hv : WellTyped (.mk key op v)) :
    (∀ field : Option Time × Zone,
        matchesTime field.1 field.2 op v = true ↔ Means (field.1.map .time) v op)
      ↔ IsOrder op ∨ op = .exists ∨ (op = .isIn ∧ v = .list []) := by
  constructor
  · intro h
    cases op with
    | lt | lte | gt | gte | «exists» => simp [IsOrder]
    | contains => exact absurd ((h (some 0, {})).mp rfl) (means_contains (by simp))
    | ne | nin =>
      have hunset := (h (none, {})).mpr (by simp [Means, Relates])
      cases hunset
    | eq =>
      obtain ⟨t, zone, rfl⟩ : ∃ t zone, v = .time t zone := by
        simpa [WellTyped, hkind, FieldKind.Accepts] using hv
      obtain ⟨zone', hzone⟩ := exists_zone [.time t zone]
      have heq := (h (some t, zone')).mpr (relates_eq_iff.mpr rfl)
      rw [matchesTime, matchesScalar, (form_time zone').goEq_iff] at heq
      exact absurd (by simp [heq]) (hzone t)
    | isIn =>
      obtain ⟨l, rfl, hl⟩ := hv
      rcases l with _ | ⟨w, l⟩
      · simp
      · obtain ⟨t, zone, rfl⟩ : ∃ t zone, w = .time t zone := by
          simpa [hkind, FieldKind.Accepts] using hl w mem_cons_self
        obtain ⟨zone', hzone⟩ := exists_zone (.time t zone :: l)
        have hmem := (h (some t, zone')).mpr ⟨_, mem_cons_self, relates_eq_iff.mpr rfl⟩
        exact absurd ((form_time zone').valueInSet_iff t |>.mp hmem) (hzone t)
  · rintro hop ⟨_ | t, zone⟩
    · rcases hop with hop | rfl | ⟨rfl, rfl⟩
      · rcases hop with rfl | rfl | rfl | rfl <;> simp [matchesTime, Means, Relates]
      · obtain ⟨b, rfl⟩ := hv
        cases b <;> simp [matchesTime, Means, boolValue]
      · simp [matchesTime, Means, elements]
    · rcases hop with hop | rfl | ⟨rfl, rfl⟩
      · exact time_holds hkind hv (.inl hop) t zone
      · exact time_holds hkind hv (.inr rfl) t zone
      · simp [matchesTime, matchesScalar, valueInSet, Means, elements]

/-- The body, which is not in the field table. -/
lemma body_iff (hv : WellTyped (.mk .body op v)) :
    (∀ s, Means (some (.text s)) v op) ↔ Idle op v := by
  constructor
  · intro h
    have hop : op ≠ .exists ∧ op ≠ .contains := by
      constructor
      · rintro rfl
        have hemp := h ""
        have hfl := h "a"
        simp only [Means, some.injEq, exists_eq_left', Content.IsEmpty] at hemp hfl
        simp [hemp] at hfl
      · rintro rfl
        exact means_contains (by simp) (h "")
    obtain ⟨hone, hmany⟩ := value_of_wellTyped Value.str
      (fun w (hw : (kind .body).Accepts w) => hw) hv hop
    rcases unbounded_text.idle_of_always h hop hone hmany with ⟨rfl, rfl⟩ | ⟨rfl, rfl⟩
    · exact .inl ⟨rfl, .inl rfl⟩
    · exact .inr ⟨rfl, rfl⟩
  · rintro (⟨rfl, rfl | rfl⟩ | ⟨rfl, rfl⟩) s
    · exact unbounded_text.means_gte_bot s
    · obtain ⟨s', hs'⟩ := hv
      cases hs'
    · exact Unbounded.means_nin_nil _

lemma texts_iff (hkind : kind key = .texts) (hv : WellTyped (.mk key op v)) :
    (∀ l, matchesSliceFilter l op v = true ↔ Means (some (.texts l)) v op)
      ↔ op = .contains ∨ op = .exists ∨ op = .eq ∨ Idle op v := by
  constructor
  · intro h
    by_cases hop : op = .contains ∨ op = .exists ∨ op = .eq
    · tauto
    · simp only [not_or] at hop
      have halways : ∀ l, Means (some (.texts l)) v op := by
        intro l
        refine (h l).mp ?_
        cases op <;> first | rfl | simp at hop
      have hop' : op ≠ .exists ∧ op ≠ .contains := ⟨hop.2.1, hop.1⟩
      obtain ⟨hone, hmany⟩ := value_of_wellTyped Value.strs
        (by rw [hkind]; exact fun w hw => hw) hv hop'
      rcases unbounded_texts.idle_of_always halways hop' hone hmany with ⟨rfl, rfl⟩ | ⟨rfl, rfl⟩
      · exact .inr (.inr (.inr (.inl ⟨rfl, .inr rfl⟩)))
      · exact .inr (.inr (.inr (.inr ⟨rfl, rfl⟩)))
  · rintro (rfl | rfl | rfl | ⟨rfl, rfl | rfl⟩ | ⟨rfl, rfl⟩) l
    · obtain ⟨s, rfl⟩ : ∃ s, v = .str s := by simpa [WellTyped, hkind] using hv
      simp [matchesSliceFilter, Means]
    · obtain ⟨b, rfl⟩ := hv
      cases b <;> simp [matchesSliceFilter, Means, boolValue, Content.IsEmpty]
    · obtain ⟨l', rfl⟩ : ∃ l', v = .strs l' := by
        simpa [WellTyped, hkind, FieldKind.Accepts] using hv
      simpa [matchesSliceFilter, Means, relates_eq_iff, standsFor] using eq_comm
    · simp [WellTyped, hkind, FieldKind.Accepts] at hv
    · exact iff_of_true rfl (unbounded_texts.means_gte_bot l)
    · exact iff_of_true rfl (Unbounded.means_nin_nil _)

lemma compareValues_flag (b : Bool) (v : Value) : compareValues (.bool b) v = .eq := by
  cases v <;> rfl

lemma compareValues_status (s : MessageStatus) (v : Value) : compareValues (.status s) v = .eq := by
  cases v <;> rfl

/-- Equality, membership and existence on a flag. -/
lemma flag_holds (hkind : kind key = .flag) (hv : WellTyped (.mk key op v)) (hop : IsPlain op)
    (b : Bool) : matchesScalar (.bool b) op v = true ↔ Means (some (.flag b)) v op := by
  by_cases hexists : op = .exists
  · subst hexists
    obtain ⟨b', rfl⟩ := hv
    exact exists_holds (by simp [goEq, Content.IsEmpty]) b'
  · exact form_bool.plain_holds (by simp [hkind, FieldKind.Accepts]) hv hop hexists b

lemma isRead_iff (hv : WellTyped (.mk .isRead op v)) :
    (∀ b, matchesScalar (.bool b) op v = true ↔ Means (some (.flag b)) v op)
      ↔ IsPlain op ∨ AtLeast (.flag false) op v ∨ AtGreatest (.flag true) op v := by
  cases op with
  | eq | ne | isIn | nin | «exists» =>
    exact iff_of_true (flag_holds rfl hv (by simp [IsPlain])) (by simp [IsPlain])
  | contains =>
    refine iff_of_false (fun h => means_contains (by simp) ((h false).mp rfl)) ?_
    simp [IsPlain, AtLeast, AtGreatest]
  | lt | lte | gt | gte =>
    obtain ⟨b, rfl⟩ := hv
    cases b <;> simp [matchesScalar, compareValues_flag, Means, relates_some_iff, standsFor,
      Content.Lt, Content.Le, IsPlain, AtLeast, AtGreatest]

lemma isDraft_iff (hv : WellTyped (.mk .isDraft op v)) :
    (matchesScalar (.bool false) op v = true ↔ Means (some (.flag false)) v op)
      ↔ IsPlain op ∨ AtLeast (.flag false) op v ∨ op = .gt ∨ op = .lte := by
  cases op with
  | eq | ne | isIn | nin | «exists» =>
    exact iff_of_true (flag_holds rfl hv (by simp [IsPlain]) false) (by simp [IsPlain])
  | contains =>
    refine iff_of_false (fun h => means_contains (by simp) (h.mp rfl)) ?_
    simp [IsPlain, AtLeast]
  | lt | lte | gt | gte =>
    obtain ⟨b, rfl⟩ := hv
    cases b <;> simp [matchesScalar, compareValues_flag, Means, relates_some_iff, standsFor,
      Content.Lt, Content.Le, IsPlain, AtLeast]

/-- Statuses are strings, but no two of them are ordered. -/
lemma status_order_iff (hop : IsOrder op) {t : String} (ht : standsFor v = some (.text t)) :
    (∀ s : MessageStatus, matchesScalar (.status s) op v = true ↔ Means (some (.text s.name)) v op)
      ↔ AtLeast (.text "") op v := by
  have hbot := unbounded_text.bot_le
  obtain ⟨u, hu⟩ := unbounded_text.noMax t
  simp only [matchesScalar, compareValues_status, Means, relates_some_iff, ht, some.injEq,
    exists_eq_left', Content.Lt, unbounded_text.le_iff, AtLeast, Content.text.injEq]
  rcases hop with rfl | rfl | rfl | rfl
  · refine ⟨fun h => ⟨.inl rfl, ?_⟩, fun h s => ?_⟩
    · by_contra hne
      exact Bool.false_ne_true ((h ⟨""⟩).mpr (lt_of_le_of_ne (hbot t) (Ne.symm hne)))
    · exact iff_of_false Bool.false_ne_true (h.2 ▸ (hbot s.name).not_gt)
  · exact iff_of_false (fun h => ((h ⟨u⟩).mp rfl).not_gt hu) (by simp)
  · exact iff_of_false (fun h => Bool.false_ne_true ((h ⟨u⟩).mpr hu)) (by simp)
  · refine ⟨fun h => ⟨.inr rfl, le_antisymm ((h ⟨""⟩).mp rfl) (hbot t)⟩, fun h s => ?_⟩
    exact iff_of_true rfl (h.2 ▸ hbot s.name)

lemma status_iff (hv : WellTyped (.mk .status op v)) :
    (∀ s : MessageStatus, matchesScalar (.status s) op v = true ↔ Means (some (.text s.name)) v op)
      ↔ InForm .status op v ∨ AtLeast (.text "") op v := by
  have hone : (kind .status).Accepts v →
      ∃ s : MessageStatus, standsFor v = some (.text s.name) := by
    rintro ⟨s, rfl | rfl⟩ <;> exact ⟨s, rfl⟩
  cases op with
  | «exists» =>
    -- A status that is the empty string is not empty for the code.
    obtain ⟨b, rfl⟩ := hv
    refine iff_of_false (fun h => ?_) (by simp [InForm, AtLeast])
    have hempty := h ⟨""⟩
    cases b <;> simp [matchesScalar, Means, boolValue, goEq, Content.IsEmpty] at hempty
  | contains =>
    refine iff_of_false (fun h => means_contains (by simp) ((h .sent).mp rfl)) ?_
    simp [InForm, AtLeast]
  | eq | ne =>
    refine (form_status.holds_iff (by simp [IsPlain]) (by simp) (fun _ => hone hv)
      (by simp)).trans ?_
    simp [AtLeast]
  | isIn | nin =>
    obtain ⟨l, rfl, -⟩ := hv
    refine (form_status.holds_iff (by simp [IsPlain]) (by simp) (by simp)
      fun _ => ⟨l, rfl⟩).trans ?_
    simp [AtLeast]
  | lt | lte | gt | gte =>
    obtain ⟨s, hs⟩ := hone hv
    rw [status_order_iff (by simp [IsOrder]) hs]
    simp [InForm]

/-! ## Lists of filters -/

/-- A filter does what it means on every message that is not a draft. -/
def Faithful (f : Filter) : Prop :=
  ∀ m : Message, m.isDraft = false → (matchesFilter m f = true ↔ Holds m f)

/-- A message that is not a draft, whose fields can be set at will. -/
def plainMessage : Message := { Store.newDraft 0 "" with isDraft := false }

/-- A condition on a field that can have every value of its type. -/
lemma forall_message_iff {γ : Type} (get : Message → γ) (set : γ → Message)
    (hset : ∀ a, (set a).isDraft = false ∧ get (set a) = a) (p : γ → Prop) :
    (∀ m : Message, m.isDraft = false → p (get m)) ↔ ∀ a, p a := by
  constructor
  · intro h a
    have ha := h (set a) (hset a).1
    rwa [(hset a).2] at ha
  · intro h m _
    exact h (get m)

/-- **One filter.**  The filters that do what they mean are those that are `Understood`. -/
theorem faithful_iff {f : Filter} (hf : WellTyped f) : Faithful f ↔ Understood f := by
  cases f with
  | zero => cases hf
  | mk key op v =>
    cases key with
    | id | ownerID | senderID | subject | folderID | threadID | replyToID | externalID =>
      constructor
      · intro h
        exact (text_iff rfl hf _).mp (h plainMessage rfl)
      · intro h m _
        exact (text_iff rfl hf _).mpr h
    | createdAt =>
      exact (forall_message_iff Message.createdAt
        (fun t => { plainMessage with createdAt := t }) (fun _ => ⟨rfl, rfl⟩) _).trans
        (time_iff rfl hf)
    | updatedAt =>
      exact (forall_message_iff Message.updatedAt
        (fun t => { plainMessage with updatedAt := t }) (fun _ => ⟨rfl, rfl⟩) _).trans
        (time_iff rfl hf)
    | expiresAt =>
      exact (forall_message_iff (fun m => (m.expiresAt, m.expiresZone))
        (fun a => { plainMessage with expiresAt := a.1, expiresZone := a.2 })
        (fun _ => ⟨rfl, rfl⟩) _).trans (optionalTime_iff rfl hf)
    | availableAt =>
      exact (forall_message_iff (fun m => (m.availableAt, m.availableZone))
        (fun a => { plainMessage with availableAt := a.1, availableZone := a.2 })
        (fun _ => ⟨rfl, rfl⟩) _).trans (optionalTime_iff rfl hf)
    | tags =>
      exact (forall_message_iff Message.tags
        (fun l => { plainMessage with tags := l }) (fun _ => ⟨rfl, rfl⟩) _).trans
        (texts_iff rfl hf)
    | recipientIDs =>
      exact (forall_message_iff Message.recipientIDs
        (fun l => { plainMessage with recipientIDs := l }) (fun _ => ⟨rfl, rfl⟩) _).trans
        (texts_iff rfl hf)
    | isRead =>
      exact (forall_message_iff Message.isRead
        (fun b => { plainMessage with isRead := b }) (fun _ => ⟨rfl, rfl⟩) _).trans
        (isRead_iff hf)
    | status =>
      exact (forall_message_iff Message.status
        (fun s => { plainMessage with status := s }) (fun _ => ⟨rfl, rfl⟩) _).trans
        (status_iff hf)
    | isDraft =>
      constructor
      · intro h
        exact (isDraft_iff hf).mp (h plainMessage rfl)
      · intro h m hm
        have hiff := (isDraft_iff hf).mpr h
        rw [← hm] at hiff
        exact hiff
    | body =>
      have hbd : Faithful (.mk .body op v)
          ↔ ∀ m : Message, m.isDraft = false → Means (some (.text m.body)) v op := by
        simp [Faithful, matchesFilter, Holds, content]
      rw [hbd]
      exact (forall_message_iff Message.body
        (fun s => { plainMessage with body := s }) (fun _ => ⟨rfl, rfl⟩) _).trans
        (body_iff hf)

/-- The builder's filters are well typed, for values of the field's type. -/
lemma builder_wellTyped {field : String} (hkey : messageFieldKey field = some key)
    (hv : (kind key).Accepts v) (hl : ∀ w ∈ l, (kind key).Accepts w) (b : Bool) :
    let m := messageFilter field
    ∀ f ∈ [m.equal v, m.notEqual v, m.greaterThan v, m.greaterThanEqual v, m.lessThan v,
      m.lessThanEqual v, m.isIn l, m.notIn l, m.exists b], WellTyped f.1 ∧ f.2 = none := by
  have hbuild : ∀ op w, (messageFilter field).build op w = (.mk key op w, none) := fun op w => by
    simp [messageFilter, FilterBuilder.build, hkey]
  simpa [FilterBuilder.equal, FilterBuilder.notEqual, FilterBuilder.greaterThan,
    FilterBuilder.greaterThanEqual, FilterBuilder.lessThan, FilterBuilder.lessThanEqual,
    FilterBuilder.isIn, FilterBuilder.notIn, FilterBuilder.exists, hbuild, WellTyped, hv] using hl

/-- The unread messages of a user's inbox with a tag. -/
def inboxView : List Filter :=
  [ownerIs "ann", inFolder folderInbox, isReadFilter false, hasTag "red"]

end Mailbox.Memory
