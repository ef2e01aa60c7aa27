import Mirrorlane.Github.Rest

/-!
# GitHub ingestion

Items are mapped to messages and appended to the log in fetch order.  A source that panics ingests
nothing.
-/

namespace Mirrorlane

/-- Map items to messages and append them: the log, and the appended ids in order. -/
def ingestItems : List GitHubItem → MessageLog → MessageLog × List MessageId
  | [], store => (store, [])
  | item :: items, store =>
    let message := toMessage item
    let rest := ingestItems items (store.append message)
    (rest.1, message.id :: rest.2)

/-- Fetch a repo's items through a source and append them; `none` when the source panics. -/
def ingestRepo (fetch : Repo → Option (List GitHubItem)) (repo : Repo) (store : MessageLog) :
    Option (MessageLog × List MessageId) :=
  (fetch repo).map fun items => ingestItems items store

/-! ### What is appended -/

theorem ingestItems_ids (items : List GitHubItem) (store : MessageLog) :
    (ingestItems items store).2 = items.map fun item => (toMessage item).id := by
  induction items generalizing store with
  | nil => rfl
  | cons item items ih =>
    show (toMessage item).id :: (ingestItems items (store.append (toMessage item))).2 = _
    rw [ih, List.map_cons]

/-- Ingestion upserts the messages of the items, in order. -/
theorem ingestItems_all (items : List GitHubItem) (store : MessageLog) :
    (ingestItems items store).1.all =
      upsertAll MessageEnvelope.id (items.map toMessage) store.all := by
  induction items generalizing store with
  | nil => rfl
  | cons item items ih =>
    show (ingestItems items (store.append (toMessage item))).1.all = _
    rw [ih, MessageLog.append_all]
    rfl

end Mirrorlane
