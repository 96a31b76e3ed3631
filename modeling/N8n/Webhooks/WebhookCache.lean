import N8n.Webhooks.WebhookService

/-!
# Cached webhooks and their rows

Deleting the webhooks of a workflow drops them from the cache and removes their rows, in any
order and without regard to calls under way. A lookup that has read a row before it was removed
writes it into the cache afterwards, and nothing takes it out again
(`run_not_cacheBacked`). A registration under way does the same, and an update of a row that
has vanished caches a webhook that has none.

If a row is removed only when no copy of it is on its way into the cache and those in the cache
are about to be dropped, and a row is updated only while it is there (`keepsCacheBacked`), each
cached webhook has a row of its workflow whenever nothing is pending (`run_cacheBacked`).
-/

open Lib

namespace N8n

namespace WebhookOperation

/-- The operation does not write a webhook with this path and method to the cache. -/
def spares (key : String × IHttpRequestMethods) : WebhookOperation → Bool
  | setCached _ webhook => webhook.primaryKey ≠ key
  | _ => true

/-- The operation drops what is cached under the key. -/
def drops (cacheKey : String) : WebhookOperation → Bool
  | deleteManyCached cacheKeys => cacheKey ∈ cacheKeys
  | _ => false

end WebhookOperation

namespace WebhookService

/-! ## What keeps the cache backed -/

/-- No copy of a webhook with this path and method is on its way into the cache, and each that
is there is about to be dropped. -/
def forgets (service : WebhookService) (key : String × IHttpRequestMethods) : Bool :=
  (service.pending.all fun operation => operation.spares key) &&
    service.cache.entries.all fun entry =>
      entry.2.primaryKey = key → service.pending.any fun operation => operation.drops entry.1

/-- The event leaves no webhook in the cache without a row. -/
def keepsCacheBacked (service : WebhookService) : WebhookEvent → Bool
  | .takesEffect operation =>
    match service.pending[operation]? with
    | some (.remove webhooks) => webhooks.all fun webhook => service.forgets webhook.primaryKey
    | some (.update webhook) =>
      (service.webhookTable.get? webhook.primaryKey).any fun row =>
        row.workflowId = webhook.workflowId ∨ service.forgets webhook.primaryKey
    | _ => true
  | _ => true

/-! ## The invariant -/

/-- A cached webhook has a row or is about to be dropped, one on its way into the cache has a
row. -/
structure Backed (service : WebhookService) : Prop where
  rows : ∀ key row, service.webhookTable.get? key = some row → row.primaryKey = key
  cached : ∀ cacheKey webhook, service.cache.get? cacheKey = some webhook →
    service.Registered webhook ∨ ∃ operation ∈ service.pending, operation.drops cacheKey = true
  writes : ∀ cacheKey webhook, .setCached cacheKey webhook ∈ service.pending →
    service.Registered webhook

variable {service service' : WebhookService} {operation : WebhookOperation}
  {operations : List WebhookOperation} {webhook : WebhookEntity}
  {key : String × IHttpRequestMethods} {index : ℕ}

/-- With nothing pending no cached webhook is about to be dropped. -/
theorem Backed.cacheBacked (h : Backed service) (hquiet : service.pending = []) :
    CacheBacked service := by
  intro cacheKey webhook hcached
  refine (h.cached cacheKey webhook hcached).resolve_right ?_
  rintro ⟨operation, hmem, -⟩
  rw [hquiet] at hmem
  cases hmem

/-! ## Issuing operations and taking them out -/

theorem Backed.issue (h : Backed service)
    (hwrites : ∀ cacheKey webhook, .setCached cacheKey webhook ∈ operations →
      service.Registered webhook) : Backed (service.issue operations) := by
  refine ⟨h.rows, fun cacheKey webhook hcached => ?_, fun cacheKey webhook hmem => ?_⟩
  · refine (h.cached cacheKey webhook hcached).imp_right ?_
    rintro ⟨operation, hmem, hdrops⟩
    exact ⟨operation, List.mem_append_left _ hmem, hdrops⟩
  · rcases List.mem_append.mp hmem with hmem | hmem
    · exact h.writes cacheKey webhook hmem
    · exact hwrites cacheKey webhook hmem

/-- The service without an operation that is about to take effect. -/
def take (service : WebhookService) (index : ℕ) : WebhookService :=
  { service with pending := service.pending.eraseIdx index }

theorem exists_drops_take {cacheKey : String} (hoperation : service.pending[index]? = some operation)
    (hdrops : operation.drops cacheKey = false)
    (h : ∃ other ∈ service.pending, other.drops cacheKey = true) :
    ∃ other ∈ (service.take index).pending, other.drops cacheKey = true := by
  obtain ⟨other, hmem, hother⟩ := h
  obtain ⟨i, hi⟩ := List.mem_iff_getElem?.mp hmem
  have hne : i ≠ index := by
    rintro rfl
    rw [Option.some.inj (hi.symm.trans hoperation), hdrops] at hother
    cases hother
  exact ⟨other, List.mem_eraseIdx_iff_getElem?.mpr ⟨i, hne, hi⟩, hother⟩

theorem Backed.take (h : Backed service) (hoperation : service.pending[index]? = some operation)
    (hdrops : ∀ cacheKey, operation.drops cacheKey = false) : Backed (service.take index) where
  rows := h.rows
  cached cacheKey webhook hcached :=
    (h.cached cacheKey webhook hcached).imp_right (exists_drops_take hoperation (hdrops cacheKey))
  writes cacheKey webhook hmem := h.writes cacheKey webhook (List.mem_of_mem_eraseIdx hmem)

/-- What a service that forgets a path and method tells about the operations that are left. -/
theorem forgets_take (h : service.forgets key = true)
    (hoperation : service.pending[index]? = some operation)
    (hdrops : ∀ cacheKey, operation.drops cacheKey = false) :
    (∀ cacheKey webhook, .setCached cacheKey webhook ∈ (service.take index).pending →
        webhook.primaryKey ≠ key) ∧
      ∀ cacheKey webhook, service.cache.get? cacheKey = some webhook → webhook.primaryKey = key →
        ∃ other ∈ (service.take index).pending, other.drops cacheKey = true := by
  obtain ⟨hspares, hdropped⟩ := Bool.and_eq_true_iff.mp h
  constructor
  · intro cacheKey webhook hmem
    exact of_decide_eq_true (List.all_eq_true.mp hspares _ (List.mem_of_mem_eraseIdx hmem))
  · intro cacheKey webhook hcached hkey
    have hentry := List.all_eq_true.mp hdropped _ (OrderedMap.mem_entries_iff.mpr hcached)
    have hany := (of_decide_eq_true hentry) hkey
    exact exists_drops_take hoperation (hdrops cacheKey) (List.any_eq_true.mp hany)

/-! ## What operations do to the table -/

/-- A webhook that loses its row is not on its way into the cache, and is dropped if it is
there. -/
theorem Backed.changeTable (h : Backed service)
    {table : OrderedMap (String × IHttpRequestMethods) WebhookEntity}
    (hrows : ∀ key row, table.get? key = some row → row.primaryKey = key)
    (hlost : ∀ webhook, service.Registered webhook →
      Registered { service with webhookTable := table } webhook ∨
        (∀ cacheKey, .setCached cacheKey webhook ∉ service.pending) ∧
          ∀ cacheKey, service.cache.get? cacheKey = some webhook →
            ∃ other ∈ service.pending, other.drops cacheKey = true) :
    Backed { service with webhookTable := table } := by
  refine ⟨hrows, fun cacheKey webhook hcached => ?_, fun cacheKey webhook hmem => ?_⟩
  · rcases h.cached cacheKey webhook hcached with hregistered | hdropped
    · exact (hlost webhook hregistered).imp_right fun hforgotten => hforgotten.2 cacheKey hcached
    · exact Or.inr hdropped
  · have hregistered := h.writes cacheKey webhook hmem
    exact (hlost webhook hregistered).resolve_right fun hforgotten => hforgotten.1 cacheKey hmem

theorem Backed.insertRow (h : Backed service)
    (hfree : service.webhookTable.get? webhook.primaryKey = none) :
    Backed { service with
      webhookTable := service.webhookTable.set webhook.primaryKey webhook } := by
  refine h.changeTable (fun key row hrow => ?_) fun other hother => Or.inl ?_
  · rw [OrderedMap.get?_set] at hrow
    split at hrow
    · rename_i hkey
      rw [← Option.some.inj hrow, hkey]
    · exact h.rows key row hrow
  · obtain ⟨row, hrow, hworkflow⟩ := hother
    have hne : webhook.primaryKey ≠ other.primaryKey := by
      intro hkey
      rw [← hkey, hfree] at hrow
      cases hrow
    exact ⟨row, (OrderedMap.get?_set_of_ne _ _ hne).trans hrow, hworkflow⟩

/-- What a service must forget of a path and method before their row changes hands or goes. -/
def Forgotten (service : WebhookService) (key : String × IHttpRequestMethods) : Prop :=
  ∀ webhook, webhook.primaryKey = key →
    (∀ cacheKey, .setCached cacheKey webhook ∉ service.pending) ∧
      ∀ cacheKey, service.cache.get? cacheKey = some webhook →
        ∃ other ∈ service.pending, other.drops cacheKey = true

theorem forgotten_take (h : service.forgets key = true)
    (hoperation : service.pending[index]? = some operation)
    (hdrops : ∀ cacheKey, operation.drops cacheKey = false) :
    (service.take index).Forgotten key := by
  obtain ⟨hwrites, hcached⟩ := forgets_take h hoperation hdrops
  exact fun webhook hkey => ⟨fun cacheKey hmem => hwrites cacheKey webhook hmem hkey,
    fun cacheKey hget => hcached cacheKey webhook hget hkey⟩

theorem Backed.updateRow (h : Backed service) {row : WebhookEntity}
    (hrow : service.webhookTable.get? webhook.primaryKey = some row)
    (hkeeps : row.workflowId = webhook.workflowId ∨ service.Forgotten webhook.primaryKey) :
    Backed { service with
      webhookTable := service.webhookTable.set webhook.primaryKey (row.updateWith webhook) } := by
  refine h.changeTable (fun key other hother => ?_) fun other hother => ?_
  · rw [OrderedMap.get?_set] at hother
    split at hother
    · rename_i hkey
      rw [← Option.some.inj hother, ← hkey]
      rfl
    · exact h.rows key other hother
  · by_cases hkey : webhook.primaryKey = other.primaryKey
    · refine hkeeps.imp (fun hworkflow => ?_) fun hforgotten => hforgotten other hkey.symm
      obtain ⟨row', hrow', hother'⟩ := hother
      rw [← hkey, hrow] at hrow'
      obtain rfl := Option.some.inj hrow'
      refine ⟨row.updateWith webhook, ?_, hworkflow.symm.trans hother'⟩
      rw [← hkey]
      exact OrderedMap.get?_set_self _ _ _
    · obtain ⟨row', hrow', hother'⟩ := hother
      exact Or.inl ⟨row', (OrderedMap.get?_set_of_ne _ _ hkey).trans hrow', hother'⟩

theorem Backed.removeRows (h : Backed service) {webhooks : List WebhookEntity}
    (hforgotten : ∀ webhook ∈ webhooks, service.Forgotten webhook.primaryKey) :
    Backed { service with
      webhookTable :=
        service.webhookTable.deleteAll (webhooks.map WebhookEntity.primaryKey) } := by
  refine h.changeTable (fun key row hrow => ?_) fun other hother => ?_
  · rw [OrderedMap.get?_deleteAll] at hrow
    split at hrow
    · cases hrow
    · exact h.rows key row hrow
  · by_cases hkey : other.primaryKey ∈ webhooks.map WebhookEntity.primaryKey
    · obtain ⟨webhook, hmem, hwebhook⟩ := List.mem_map.mp hkey
      exact Or.inr (hforgotten webhook hmem other hwebhook.symm)
    · obtain ⟨row, hrow, hworkflow⟩ := hother
      refine Or.inl ⟨row, ?_, hworkflow⟩
      rw [OrderedMap.get?_deleteAll, if_neg hkey]
      exact hrow

/-! ## What operations do to the cache -/

theorem Backed.setCached (h : Backed service) {cacheKey : String}
    (hregistered : service.Registered webhook) :
    Backed { service with cache := service.cache.set cacheKey webhook } := by
  refine ⟨h.rows, fun other cached hcached => ?_, h.writes⟩
  rw [OrderedMap.get?_set] at hcached
  split at hcached
  · obtain rfl := Option.some.inj hcached
    exact Or.inl hregistered
  · exact h.cached other cached hcached

/-- What a deletion was to drop is no longer cached. -/
theorem Backed.deleteManyCached (h : Backed service) {cacheKeys : List String}
    (hoperation : service.pending[index]? = some (.deleteManyCached cacheKeys)) :
    Backed { service.take index with cache := service.cache.deleteAll cacheKeys } := by
  refine ⟨h.rows, fun cacheKey webhook hcached => ?_, fun cacheKey webhook hmem => ?_⟩
  · rw [OrderedMap.get?_deleteAll] at hcached
    split at hcached
    · cases hcached
    · rename_i hkept
      have hdrops : (WebhookOperation.deleteManyCached cacheKeys).drops cacheKey = false :=
        decide_eq_false hkept
      exact (h.cached cacheKey webhook hcached).imp_right (exists_drops_take hoperation hdrops)
  · exact h.writes cacheKey webhook (List.mem_of_mem_eraseIdx hmem)

/-! ## Runs -/

theorem Backed.takeEffect (h : Backed service)
    (hoperation : service.pending[index]? = some operation)
    (hC : service.keepsCacheBacked (.takesEffect index) = true) :
    Backed ((service.take index).takeEffect operation) := by
  simp only [keepsCacheBacked, hoperation] at hC
  cases operation with
  | getCached method path =>
    have htaken := h.take hoperation fun _ => rfl
    simp only [WebhookService.takeEffect]
    split
    · exact htaken
    · exact htaken.issue fun _ _ hmem => by simp at hmem
  | findStaticWebhookInDb method path =>
    have htaken := h.take hoperation fun _ => rfl
    simp only [WebhookService.takeEffect]
    split
    · rename_i webhook hrow
      refine htaken.issue fun cacheKey other hmem => ?_
      obtain ⟨-, rfl⟩ := WebhookOperation.setCached.inj (List.mem_singleton.mp hmem)
      refine ⟨other, ?_, rfl⟩
      rw [h.rows _ other hrow]
      exact hrow
    · exact htaken
  | setCached cacheKey webhook =>
    have htaken := h.take hoperation fun _ => rfl
    exact htaken.setCached (h.writes cacheKey webhook (List.mem_of_getElem? hoperation))
  | insert webhook =>
    have htaken := h.take hoperation fun _ => rfl
    simp only [WebhookService.takeEffect]
    split
    · exact htaken.issue fun _ _ hmem => by simp at hmem
    · rename_i hfree
      refine (htaken.insertRow hfree).issue fun cacheKey other hmem => ?_
      obtain ⟨-, rfl⟩ := WebhookOperation.setCached.inj (List.mem_singleton.mp hmem)
      exact ⟨other, OrderedMap.get?_set_self _ _ _, rfl⟩
  | findExisting webhook =>
    have htaken := h.take hoperation fun _ => rfl
    simp only [WebhookService.takeEffect]
    split
    · exact htaken
    · split
      · exact htaken
      · exact htaken.issue fun _ _ hmem => by simp at hmem
  | update webhook =>
    have htaken := h.take hoperation fun _ => rfl
    have hupdate : (service.webhookTable.get? webhook.primaryKey).any (fun row =>
        row.workflowId = webhook.workflowId ∨ service.forgets webhook.primaryKey) = true := hC
    cases hrow : service.webhookTable.get? webhook.primaryKey with
    | none =>
      rw [hrow] at hupdate
      cases hupdate
    | some row =>
      rw [hrow] at hupdate
      have hkeeps : row.workflowId = webhook.workflowId ∨
          (service.take index).Forgotten webhook.primaryKey :=
        (of_decide_eq_true hupdate).imp_right fun h => forgotten_take h hoperation fun _ => rfl
      have hupdated := htaken.updateRow hrow hkeeps
      have hrow' : (service.take index).webhookTable.get? webhook.primaryKey = some row := hrow
      simp only [WebhookService.takeEffect, hrow']
      refine hupdated.issue fun cacheKey other hmem => ?_
      obtain ⟨-, rfl⟩ := WebhookOperation.setCached.inj (List.mem_singleton.mp hmem)
      exact ⟨row.updateWith other, OrderedMap.get?_set_self _ _ _, rfl⟩
  | findByWorkflow workflowId =>
    have htaken := h.take hoperation fun _ => rfl
    exact htaken.issue fun _ _ hmem => by simp at hmem
  | deleteManyCached cacheKeys => exact h.deleteManyCached hoperation
  | remove webhooks =>
    have htaken := h.take hoperation fun _ => rfl
    exact htaken.removeRows fun webhook hmem =>
      forgotten_take (List.all_eq_true.mp hC webhook hmem) hoperation fun _ => rfl

theorem Backed.step {event : WebhookEvent} (h : Backed service)
    (hC : service.keepsCacheBacked event = true) (hs : service.step event = .ok service') :
    Backed service' := by
  cases event with
  | findStaticWebhook method path =>
    obtain rfl := Except.ok.inj hs
    exact h.issue fun _ _ hmem => by simp at hmem
  | storeWebhook webhook =>
    obtain rfl := Except.ok.inj hs
    exact h.issue fun _ _ hmem => by simp at hmem
  | deleteWorkflowWebhooks workflowId =>
    obtain rfl := Except.ok.inj hs
    exact h.issue fun _ _ hmem => by simp at hmem
  | takesEffect index =>
    simp only [WebhookService.step] at hs
    split at hs
    · rename_i operation hoperation
      obtain rfl := Except.ok.inj hs
      exact h.takeEffect hoperation hC
    · cases hs

/-- Nothing is pending, and what is cached has a row. Rows are stored under their keys. -/
structure AtRest (service : WebhookService) : Prop where
  pending : service.pending = []
  rows : ∀ key row, service.webhookTable.get? key = some row → row.primaryKey = key
  cached : CacheBacked service

theorem AtRest.backed (h : AtRest service) : Backed service where
  rows := h.rows
  cached cacheKey webhook hcached := Or.inl (h.cached cacheKey webhook hcached)
  writes cacheKey webhook hmem := by
    rw [h.pending] at hmem
    cases hmem

/-- In a run that removes and updates rows only so, each cached webhook has a row of its
workflow whenever nothing is pending. -/
theorem run_cacheBacked {initial : WebhookService} {events : List (WebhookService × WebhookEvent)}
    (hinitial : AtRest initial) (h : Run step initial events service)
    (hC : ∀ event ∈ events, event.1.keepsCacheBacked event.2 = true)
    (hquiet : service.pending = []) : CacheBacked service := by
  have hbacked : Backed service :=
    h.invariant (C := fun service event => service.keepsCacheBacked event = true) hinitial.backed
      (fun _ _ _ hs hC h => hs.step hC h) hC
  exact hbacked.cacheBacked hquiet

theorem atRest_empty : AtRest {} :=
  ⟨rfl, fun _ _ hrow => by simp at hrow, fun _ _ hcached => by simp at hcached⟩

def staticWebhook : WebhookEntity where
  workflowId := "workflow"
  webhookPath := "path"
  method := .GET
  node := "Webhook"

/-- A webhook is stored, looked up and deleted, and stored again by another workflow. -/
theorem run_cacheBacked_sequential : ∃ events service, Run step {} events service ∧
    service.cache.keys = ["webhook:GET-path"] ∧ CacheBacked service := by
  have hevents : (runSteps step {}
      [.storeWebhook staticWebhook, .takesEffect 0, .takesEffect 0,
        .findStaticWebhook .GET "path", .takesEffect 0,
        .deleteWorkflowWebhooks "workflow", .takesEffect 0, .takesEffect 0, .takesEffect 0,
        .storeWebhook { staticWebhook with workflowId := "other" }, .takesEffect 0,
        .takesEffect 0]).map
      (fun r => (r.2.cache.keys, r.2.pending,
        r.1.all fun event => event.1.keepsCacheBacked event.2)) =
        .ok (["webhook:GET-path"], [], true) := by
    decide
  obtain ⟨events, service, hrun, -, h⟩ := exists_run hevents
  obtain ⟨hkeys, h⟩ := Prod.mk.inj h
  obtain ⟨hquiet, hkeeps⟩ := Prod.mk.inj h
  exact ⟨events, service, hrun, hkeys,
    run_cacheBacked atRest_empty hrun (List.all_eq_true.mp hkeeps) hquiet⟩

/-- A lookup has read the row when the workflow's webhooks are deleted, and caches it
afterwards. -/
theorem run_not_cacheBacked : ∃ events service, Run step {} events service ∧
    service.pending = [] ∧ ¬CacheBacked service := by
  have hevents : (runSteps step {}
      [.storeWebhook staticWebhook, .takesEffect 0, .takesEffect 0,
        .deleteWorkflowWebhooks "workflow", .takesEffect 0, .takesEffect 0,
        .findStaticWebhook .GET "path", .takesEffect 1, .takesEffect 1, .takesEffect 0,
        .takesEffect 0]).map
      (fun r => (r.2.cache.get? "webhook:GET-path", r.2.pending, r.2.webhookTable.entries)) =
        .ok (some staticWebhook, [], []) := by
    decide
  obtain ⟨events, service, hrun, -, h⟩ := exists_run hevents
  obtain ⟨hcached, h⟩ := Prod.mk.inj h
  obtain ⟨hquiet, hrows⟩ := Prod.mk.inj h
  refine ⟨events, service, hrun, hquiet, fun hbacked => ?_⟩
  obtain ⟨row, hrow, -⟩ := hbacked _ _ hcached
  have hmem := OrderedMap.mem_entries_iff.mpr hrow
  rw [show service.webhookTable.entries = [] from hrows] at hmem
  cases hmem

end WebhookService
end N8n
