import Mailbox.Memory.Create

/-!
# What holds of every message

`Store.Every p` says that all messages of the store, drafts included, have the property `p`.  Such a
property is kept by every operation that stores nothing without it: each lemma names the messages
that its operation stores, and asks for `p` of these alone.
-/

namespace Mailbox.Memory

/-- A message that has the property still has it when it has been updated. -/
def Update.Keeps (p : Message → Prop) (u : Update) : Prop :=
  ∀ orig msg, orig.isDraft = false → p orig → u orig = .ok (some msg) → p msg

namespace Store

def Every (p : Message → Prop) (s : Store) : Prop := ∀ msg ∈ s.messages.all, p msg

instance (p : Message → Prop) [DecidablePred p] (s : Store) : Decidable (s.Every p) :=
  inferInstanceAs (Decidable (∀ msg ∈ s.messages.all, p msg))

variable {p : Message → Prop} {s : Store} {id : String} {msg : Message}

/-- Where `Get` finds no message, no mutator finds one. -/
lemma get_cases (id : String) (s : Store) :
    (∃ e, s.get id = .error e ∧ ∀ u, mutate u id s = (.error e, s))
      ∨ ∃ msg, s.get id = .ok msg ∧ id ≠ "" ∧ s.messages.load id = some msg
        ∧ msg.isDraft = false := by
  by_cases hid : id = ""
  · exact .inl ⟨.sentinel .invalidID, by simp [get, hid], fun u => by simp [mutate, hid]⟩
  · cases hld : s.messages.load id with
    | none =>
      exact .inl ⟨.sentinel .notFound, by simp [get, hid, hld],
        fun u => by simp [mutate, hid, hld]⟩
    | some msg =>
      cases hdr : msg.isDraft with
      | true =>
        exact .inl ⟨.sentinel .notFound, by simp [get, hid, hld, hdr],
          fun u => by simp [mutate, hid, hld, hdr]⟩
      | false => exact .inr ⟨msg, by simp [get, hid, hld, hdr], hid, rfl, hdr⟩

section

variable (h : s.Every p)

include h

lemma Every.of_load (hld : s.messages.load id = some msg) : p msg :=
  h msg (Table.load_eq_some_iff.mp hld).1

lemma Every.congr {s' : Store} (hms : s'.messages = s.messages) : s'.Every p := by
  unfold Every
  rwa [hms]

lemma Every.put (hmsg : p msg) : Every p (s.put msg) := by
  intro msg' hmsg'
  rcases Table.mem_put.mp hmsg' with rfl | ⟨hmem, _⟩
  · exact hmsg
  · exact h msg' hmem

lemma Every.put_iff : Every p (s.put msg) ↔ p msg :=
  ⟨fun hput => hput msg (Table.mem_put.mpr (.inl rfl)), h.put⟩

lemma Every.delete (id : String) : Every p (s.remove id) :=
  fun msg hmsg => h msg (Table.mem_delete.mp hmsg).1

/-! ## Single messages -/

lemma Every.mutate {u : Update} (hu : u.Keeps p) (id : String) : (mutate u id s).2.Every p := by
  unfold Store.mutate
  split_ifs
  · exact h
  · cases hld : s.messages.load id with
    | none => exact h
    | some orig =>
      simp only
      split_ifs with hdr
      · exact h
      · cases hupd : u orig with
        | error => exact h
        | ok changed =>
          cases changed with
          | none => exact h
          | some msg =>
            exact h.put (hu orig msg (Bool.eq_false_iff.mpr hdr) (h.of_load hld) hupd)

lemma Every.moveToFolder {now : Time} {folderID : String} {opts : MoveOptions}
    (hu : (Update.moveToFolder now folderID opts).Keeps p) (id : String) :
    (moveToFolder now id folderID opts s).2.Every p := by
  unfold Store.moveToFolder
  split_ifs
  · exact h
  · exact h
  · exact h.mutate hu id

lemma Every.hardDelete (id : String) : (hardDelete id s).2.Every p := by
  unfold Store.hardDelete
  split_ifs
  · exact h
  · cases s.messages.load id with
    | none => exact h
    | some =>
      simp only
      split_ifs
      · exact h
      · exact h.delete id

/-! ## Drafts -/

lemma Every.saveDraft {uuid : ℕ → String} {now : Time} {draft : Message}
    (hsaved : p (saveDraft uuid now draft s).1) : (saveDraft uuid now draft s).2.Every p :=
  h.put hsaved

lemma Every.deleteDraft (id : String) : (deleteDraft id s).2.Every p := by
  unfold Store.deleteDraft
  split_ifs
  · exact h
  · cases s.messages.load id with
    | none => exact h
    | some =>
      simp only
      split_ifs
      · exact h.delete id
      · exact h

end

/-! ## New messages -/

variable {uuid : ℕ → String} {now : Time} {data : MessageData}

lemma Every.createMessage (h : s.Every p) (hw : ∀ id, p (newMessageFromData data id now)) :
    (createMessage uuid now data s).2.Every p :=
  h.put (hw _)

lemma Every.createMessageIdempotent (h : s.Every p)
    (hw : ∀ id, p (newMessageFromData data id now)) (idempotencyKey : String) :
    (createMessageIdempotent uuid now data idempotencyKey s).2.Every p := by
  obtain ⟨_, hcases⟩ := createMessageIdempotent_cases uuid now data idempotencyKey s
  rcases hcases with ⟨_, hms⟩ | ⟨_, hms⟩ | ⟨n, _, _, _, hms⟩
  · exact h.congr hms
  · exact h.congr hms
  · exact (h.put (hw (uuid n))).congr hms

end Store

end Mailbox.Memory
