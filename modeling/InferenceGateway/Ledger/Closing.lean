import InferenceGateway.Ledger.Books

/-! What a Close settles even if Record is still being called: whatever had been recorded
when it began has left the writer when it returns nil. -/
namespace Gateway.Ledger
namespace World
variable {w next early : World} {dropped : Nat}

/-- The entries handed to InsertBatch, in order. -/
def handedOn (w : World) : List Entry := (w.inserts.map Insert.entries).flatten

/-- What holds from a Close on that found the ledger at `early`. -/
structure Settles (early w : World) : Prop where
  cancelled : w.writer.cancelled = true
  later : ∃ more refused, w.accepted = early.accepted ++ more ∧
    w.recorded.Perm (early.recorded ++ (more ++ refused))
  out : w.writer.phase = .inserting true ∨ w.writer.phase = .done →
    early.accepted.length ≤ w.handedOn.length + w.writer.batch.length
  empty : w.writer.phase = .done → w.writer.batch = []

theorem settles_close (ends : w.writer.Ends) (live : w.writer.cancelled = false) :
    w.Settles { w with writer := w.writer.cancel } := by
  have working := working_of_live ends live
  refine ⟨rfl, ⟨[], [], by simp, by simp⟩, ?_, ?_⟩
  · intro late
    rcases working with here | here <;> simp [Writer.cancel, here] at late
  · intro done
    rcases working with here | here <;> simp [Writer.cancel, here] at done

theorem Settles.working (h : early.Settles w) {writer : Writer}
    (cancelled : writer.cancelled = w.writer.cancelled)
    (phase : (writer.phase = .selecting ∨ writer.phase = .inserting false) ∨ writer.phase = .draining) :
    early.Settles { w with writer } := by
  refine ⟨cancelled.trans h.cancelled, h.later, ?_, ?_⟩
  · intro late
    rcases phase with (here | here) | here <;> simp [here] at late
  · intro done
    rcases phase with (here | here) | here <;> simp [here] at done

theorem Settles.step (accounted : w.Accounted dropped) (h : early.Settles w) {ev : Event}
    (moved : w.step ev = some next) : early.Settles next := by
  obtain ⟨more, refused, accepted, recorded⟩ := h.later
  cases stepped moved with
  | handed e blocked ready =>
      have live := (Writer.waiting_cases ready).2.2
      rw [h.cancelled] at live
      cases live
  | buffered e blocked =>
      refine ⟨h.cancelled, ⟨more ++ [e], refused, ?_, ?_⟩, h.out, h.empty⟩
      · rw [accepted, List.append_assoc]
      · refine (recorded.append_right [e]).trans ?_
        simp only [List.append_assoc]
        exact (List.perm_append_comm.append_left more).append_left _
  | lost e blocked =>
      refine ⟨h.cancelled, ⟨more, refused ++ [e], accepted, ?_⟩, h.out, h.empty⟩
      refine (recorded.append_right [e]).trans (.of_eq ?_)
      simp only [List.append_assoc]
  | received selecting _ =>
      exact h.working Writer.take_cancelled (.inl (Writer.take_phase selecting))
  | ticked _ =>
      exact h.working (Writer.flush_cancelled false) (.inl Writer.flush_false_phase)
  | stopped _ _ => exact h.working rfl (.inr rfl)
  | drained draining _ => exact h.working rfl (.inr draining)
  | emptied draining entries =>
      refine ⟨(Writer.flush_cancelled true).trans h.cancelled, h.later, fun _ => ?_, fun done => ?_⟩
      · have order := congrArg List.length accounted.order
        have early_le : early.accepted.length ≤ w.accepted.length := by simp [accepted]
        simp only [Writer.backlog, entries, List.append_nil, List.length_append] at order
        rw [Writer.flush_batch]
        exact early_le.trans order.le
      · exact (Writer.flush_true_ends (h.cancelled) entries).empty done
  | @returned last err inside =>
      cases last with
      | false => exact ⟨h.cancelled, h.later, by simp [World.inserted], by simp [World.inserted]⟩
      | true =>
          refine ⟨h.cancelled, h.later, fun _ => ?_, fun _ => rfl⟩
          have out := h.out (.inl inside)
          simpa [World.inserted, handedOn] using out
  | closed => exact ⟨rfl, h.later, h.out, h.empty⟩

end World

namespace Books
variable {b : Books} {early : World} {dropped : Nat} {old : Table}
  {kept lost refused before refusedBefore : List Entry}

/-- Once Close has returned nil, the table, the failed inserts and the counter have between
them everything recorded before it began. -/
theorem Accounted.settled (h : b.Accounted dropped old kept lost refused)
    (settles : early.Settles b.ledger) (done : b.ledger.writer.phase = .done)
    (split : early.recorded.Perm (early.accepted ++ refusedBefore)) :
    early.recorded.Subperm (kept ++ lost ++ refused) := by
  obtain ⟨more, refusedLater, accepted, recorded⟩ := settles.later
  have out := settles.out (.inr done)
  rw [settles.empty done, List.length_nil, Nat.add_zero] at out
  have started : early.accepted <+: b.ledger.handedOn := by
    refine List.prefix_of_prefix_length_le ⟨more, accepted.symm⟩ ⟨b.ledger.writer.backlog, ?_⟩ out
    exact h.ledger.order.symm
  have inserted : early.accepted.Subperm (kept ++ lost) :=
    started.sublist.subperm.trans h.inserted.subperm
  have refusals : (refusedBefore ++ refusedLater).Perm refused := by
    rw [← List.perm_append_left_iff b.ledger.accepted]
    refine .trans ?_ h.recorded
    refine .trans ?_ recorded.symm
    refine .trans ?_ (split.symm.append_right _)
    rw [accepted]
    simp only [List.append_assoc]
    refine List.Perm.append_left _ ?_
    rw [← List.append_assoc, ← List.append_assoc]
    exact List.perm_append_comm.append_right _
  refine split.subperm.trans (inserted.append ?_)
  exact (List.sublist_append_left _ _).subperm.trans refusals.subperm

end Books
end Gateway.Ledger
