import NatsServer.Server.Calls

/-!
# Interest notifications

A registration asks `Match` for the subject and decides from the result whether there is exact
interest. For a queue it looks only at the first entry of each queue group, and the groups of a
match result are ordered by where the walk met them first: a subscription on `>` with the same
queue comes first, so the exact one behind it is missed.

`clearNotification` takes a channel off a list by moving the last channel into its slot and
shortening a copy of the slice, so the map keeps the list at its length until it would be empty.
-/

namespace NatsServer.Server

open NatsServer.Lib NatsServer.Subject

example :
    (((((Sublist.NewSublist false).RegisterNotification "foo" (some 1)).1.RegisterNotification
        "foo" (some 2)).1.ClearNotification "foo" 1).1.Insert ⟨3, "foo", none, false, 1⟩).1.sent =
      [(1, false), (2, false), (2, true), (2, true)] := by
  decide +kernel

/-- With `>` and `foo` subscribed in queue `q`, a queue registration for `foo` in `q` meets the
`>` subscription first in the group, sends `false` and puts the channel in the insert map,
although the node of `foo` holds a subscription on exactly `foo` in `q`. -/
theorem RegisterQueueNotification_first_entry :
    (Assoc.find (⟨2, "foo", some "q", false, 1⟩ : Subscription)
        ((Assoc.find "q" ((((Sublist.NewSublist false).Insert ⟨1, ">", some "q", false, 1⟩).1.Insert
          ⟨2, "foo", some "q", false, 1⟩).1.subsAt [.lit "foo"]).qsubs).getD [])).isSome = true ∧
      ((((Sublist.NewSublist false).Insert ⟨1, ">", some "q", false, 1⟩).1.Insert
          ⟨2, "foo", some "q", false, 1⟩).1.RegisterQueueNotification "foo" "q" (some 7)).2 =
        .ok () ∧
      ((((Sublist.NewSublist false).Insert ⟨1, ">", some "q", false, 1⟩).1.Insert
          ⟨2, "foo", some "q", false, 1⟩).1.RegisterQueueNotification "foo" "q" (some 7)).1.sent =
        [(7, false)] ∧
      ((((Sublist.NewSublist false).Insert ⟨1, ">", some "q", false, 1⟩).1.Insert
          ⟨2, "foo", some "q", false, 1⟩).1.RegisterQueueNotification "foo" "q" (some 7)).1.notify =
        some ⟨[("foo q", [7])], []⟩ := by
  decide +kernel

end NatsServer.Server
