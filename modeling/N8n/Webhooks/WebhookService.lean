import N8n.Lib.OrderedMap
import N8n.Lib.Run

/-!
# The webhook service

`WebhookService` keeps the registered webhooks in a table with one row for each path and method,
and a cache in front of it. Looking a webhook up, storing it and deleting the webhooks of a
workflow take several operations on the table and the cache, each of which takes effect some
time after it was issued. `pending` lists the operations that were issued and have not taken
effect, with what their call does next; they take effect in any order.
-/

open Lib

namespace N8n

inductive IHttpRequestMethods where
  | DELETE | GET | HEAD | PATCH | POST | PUT
  deriving DecidableEq, Repr

def IHttpRequestMethods.toKey : IHttpRequestMethods → String
  | DELETE => "DELETE"
  | GET => "GET"
  | HEAD => "HEAD"
  | PATCH => "PATCH"
  | POST => "POST"
  | PUT => "PUT"

structure WebhookEntity where
  workflowId : String
  webhookPath : String
  method : IHttpRequestMethods
  node : String
  webhookId : Option String := none
  pathLength : Option ℕ := none
  deriving DecidableEq, Repr

namespace WebhookEntity

/-- The columns of the primary key. -/
def primaryKey (webhook : WebhookEntity) : String × IHttpRequestMethods :=
  (webhook.webhookPath, webhook.method)

def uniquePath (webhook : WebhookEntity) : String :=
  if ':' ∈ webhook.webhookPath.toList then
    "/".intercalate [webhook.webhookId.getD "", webhook.webhookPath]
  else webhook.webhookPath

def cacheKey (webhook : WebhookEntity) : String :=
  s!"webhook:{webhook.method.toKey}-{webhook.uniquePath}"

/-- An update leaves the columns that are undefined in the new webhook. -/
def updateWith (existing webhook : WebhookEntity) : WebhookEntity :=
  { webhook with
    webhookId := webhook.webhookId.or existing.webhookId
    pathLength := webhook.pathLength.or existing.pathLength }

end WebhookEntity

/-- An operation on the cache or the table. -/
inductive WebhookOperation where
  /-- `findCachedStaticWebhook` reads the cache. -/
  | getCached (method : IHttpRequestMethods) (path : String)
  | findStaticWebhookInDb (method : IHttpRequestMethods) (path : String)
  /-- A webhook is on its way into the cache. -/
  | setCached (cacheKey : String) (webhook : WebhookEntity)
  | insert (webhook : WebhookEntity)
  /-- `storeWebhook` looks for the row that kept its own from being inserted. -/
  | findExisting (webhook : WebhookEntity)
  | update (webhook : WebhookEntity)
  | findByWorkflow (workflowId : String)
  | deleteManyCached (cacheKeys : List String)
  | remove (webhooks : List WebhookEntity)
  deriving DecidableEq, Repr

structure WebhookService where
  webhookTable : OrderedMap (String × IHttpRequestMethods) WebhookEntity := ∅
  cache : OrderedMap String WebhookEntity := ∅
  pending : List WebhookOperation := []

inductive WebhookEvent where
  | findStaticWebhook (method : IHttpRequestMethods) (path : String)
  | storeWebhook (webhook : WebhookEntity)
  | deleteWorkflowWebhooks (workflowId : String)
  /-- A pending operation takes effect, and its call goes on. -/
  | takesEffect (operation : ℕ)
  deriving DecidableEq, Repr

namespace WebhookService

def issue (service : WebhookService) (operations : List WebhookOperation) : WebhookService :=
  { service with pending := service.pending ++ operations }

/-- What an operation does, and what its call issues next. -/
def takeEffect (service : WebhookService) : WebhookOperation → WebhookService
  | .getCached method path =>
    match service.cache.get? s!"webhook:{method.toKey}-{path}" with
    | some _ => service
    | none => service.issue [.findStaticWebhookInDb method path]
  | .findStaticWebhookInDb method path =>
    match service.webhookTable.get? (path, method) with
    | some webhook => service.issue [.setCached s!"webhook:{method.toKey}-{path}" webhook]
    | none => service
  | .setCached cacheKey webhook => { service with cache := service.cache.set cacheKey webhook }
  | .insert webhook =>
    match service.webhookTable.get? webhook.primaryKey with
    | some _ => service.issue [.findExisting webhook]
    | none =>
      issue { service with webhookTable := service.webhookTable.set webhook.primaryKey webhook }
        [.setCached webhook.cacheKey webhook]
  | .findExisting webhook =>
    match service.webhookTable.get? webhook.primaryKey with
    -- the row has vanished, and the error of the insertion is thrown
    | none => service
    | some existing =>
      -- the path is taken by another workflow, and `WebhookPathTakenError` is thrown
      if existing.workflowId ≠ webhook.workflowId then service
      else service.issue [.update webhook]
  | .update webhook =>
    let webhookTable :=
      match service.webhookTable.get? webhook.primaryKey with
      | some existing =>
        service.webhookTable.set webhook.primaryKey (existing.updateWith webhook)
      -- the row has vanished, and the update succeeds
      | none => service.webhookTable
    issue { service with webhookTable } [.setCached webhook.cacheKey webhook]
  | .findByWorkflow workflowId =>
    let webhooks := service.webhookTable.values.filter fun webhook =>
      webhook.workflowId = workflowId
    service.issue [.deleteManyCached (webhooks.map WebhookEntity.cacheKey), .remove webhooks]
  | .deleteManyCached cacheKeys => { service with cache := service.cache.deleteAll cacheKeys }
  | .remove webhooks =>
    { service with
      webhookTable := service.webhookTable.deleteAll (webhooks.map WebhookEntity.primaryKey) }

def step (service : WebhookService) : WebhookEvent → Except Unit WebhookService
  | .findStaticWebhook method path => .ok (service.issue [.getCached method path])
  | .storeWebhook webhook => .ok (service.issue [.insert webhook])
  | .deleteWorkflowWebhooks workflowId => .ok (service.issue [.findByWorkflow workflowId])
  | .takesEffect operation =>
    match service.pending[operation]? with
    | some pending =>
      .ok (takeEffect { service with pending := service.pending.eraseIdx operation } pending)
    | none => .error ()

/-- A row of the table has the webhook's path and method and belongs to its workflow. -/
def Registered (service : WebhookService) (webhook : WebhookEntity) : Prop :=
  ∃ row, service.webhookTable.get? webhook.primaryKey = some row ∧
    row.workflowId = webhook.workflowId

/-- Each cached webhook corresponds to a row of the same workflow. -/
def CacheBacked (service : WebhookService) : Prop :=
  ∀ cacheKey webhook, service.cache.get? cacheKey = some webhook → service.Registered webhook

end WebhookService
end N8n
