import KubeStellar.Library.GoMap
import KubeStellar.Library.Run

/-! # The providers of the space manager

`handleAdd` and `handleDelete` of `space-framework/pkg/space-manager/reconcile_spaceprovider.go` with `provider.go`.
What the API server and the client of a provider answer is given; the calls are recorded in order.
-/

namespace KubeStellar.SpaceManager

inductive SpaceProviderType where
  | kind
  | kubeflex
  | kcp
  | other (text : String)
deriving DecidableEq

def SpaceProviderType.text : SpaceProviderType → String
  | kind => "kind"
  | kubeflex => "kubeflex"
  | kcp => "kcp"
  | other text => text

inductive SpaceProviderDescPhase where
  | initializing
  | ready
deriving DecidableEq

structure SecretReference where
  name : String
  ns : String
deriving DecidableEq

structure SpaceProviderDesc where
  name : String
  providerType : SpaceProviderType
  secretRef : Option SecretReference
  spacePrefixForDiscovery : String
  phase : SpaceProviderDescPhase
deriving DecidableEq

inductive SpaceType where
  | managed
  | unmanaged
  | imported
deriving DecidableEq

inductive SpacePhase where
  | initializing
  | notReady
  | ready
deriving DecidableEq

structure Space where
  ns : String
  name : String
  spaceType : SpaceType
  phase : SpacePhase
deriving DecidableEq

abbrev Config := GoMap String String

inductive Reason where
  | alreadyExists
  | notFound
  | other
deriving DecidableEq

structure ApiError where
  reason : Reason
  error : String

def errorUnless (reason : Reason) : Option ApiError → Option String
  | none => none
  | some err => if err.reason = reason then none else some err.error

/-- What is answered to the calls of one reconciliation. `none` is the absence of an error. -/
structure Api where
  updateDesc : SpaceProviderDesc → Option String
  getSecret : SecretReference → Except String Config
  /-- Whether the package of the provider makes a client from the configuration. -/
  newClient : SpaceProviderType → Config → Bool
  createNamespace : String → Option ApiError
  watch : SpaceProviderType → Option String
  updateSpace : Space → Option String
  deleteSpace : String → String → Option String
  deleteNamespace : String → Option ApiError

/-- A call of the API server or of a provider. The watches are numbered as they are opened. -/
inductive Call where
  | updateDesc (desc : SpaceProviderDesc)
  | createNamespace (ns : String)
  | watch (provider : String) (watcher : Nat)
  | stopDiscovery (provider : String)
  | stop (watcher : Nat)
  | updateSpace (space : Space)
  | deleteSpace (ns name : String)
  | deleteNamespace (ns : String)
deriving DecidableEq

structure Provider where
  name : String
  providerClient : SpaceProviderType
  providerWatcher : Option Nat
  nameSpace : String
  discoveryPrefix : String

inductive Panic where
  | closeOfClosedChannel
deriving DecidableEq

def prefixNamespace : String := "spaceprovider-"

def providerNS (name : String) : String := prefixNamespace ++ name

/-- `none` for a client that is nil. -/
def newProviderClient (api : Api) (pType : SpaceProviderType) (configStrs : Config) : Option SpaceProviderType :=
  match pType with
  | .other _ => none
  | pType => if api.newClient pType configStrs then some pType else none

/-- The client that `CreateProvider` makes for a provider that is not in the list. -/
def clientFor (api : Api) (desc : SpaceProviderDesc) : Except String SpaceProviderType :=
  let configStrs : Except String Config :=
    if desc.providerType = .kind then .ok ∅
    else
      match desc.secretRef with
      | none => .error ("provider description for " ++ desc.name ++ " is missing internal secret reference")
      | some ref => api.getSecret ref
  match configStrs with
  | .error err => .error err
  | .ok configStrs =>
    match newProviderClient api desc.providerType configStrs with
    | none => .error ("failed to create client for provider: " ++ desc.providerType.text)
    | some client => .ok client

structure Controller where
  providers : GoMap String Provider
  watches : Nat
  calls : List Call

namespace Controller

def start : Controller := ⟨∅, 0, []⟩

variable (c : Controller)

def call (call : Call) : Controller := { c with calls := c.calls ++ [call] }

def setProviderStatus (api : Api) (desc : SpaceProviderDesc) (status : SpaceProviderDescPhase) :
    Controller × Option String :=
  (c.call (.updateDesc { desc with phase := status }), api.updateDesc { desc with phase := status })

def createProvider (api : Api) (desc : SpaceProviderDesc) : Controller × Option Provider × Option String :=
  match c.providers.get desc.name with
  | some prov => (c, some prov, some ("provider " ++ desc.providerType.text ++ " already in the list"))
  | none =>
    match clientFor api desc with
    | .error err => (c, none, some err)
    | .ok client =>
      let discoveryPrefix := if desc.spacePrefixForDiscovery = "" then "*" else desc.spacePrefixForDiscovery
      let p : Provider := ⟨desc.name, client, none, providerNS desc.name, discoveryPrefix⟩
      ({ c with providers := c.providers.put desc.name p }, some p, none)

def startDiscovery (api : Api) (p : Provider) : Controller × Option String :=
  match p.providerWatcher with
  | some _ => (c, none)
  | none =>
    match api.watch p.providerClient with
    | some err => (c, some err)
    | none =>
      ({ c with
          providers := c.providers.put p.name { p with providerWatcher := some c.watches }
          watches := c.watches + 1
          calls := c.calls ++ [.watch p.name c.watches] }, none)

def closesAgain : SpaceProviderType → Bool
  | .kubeflex => false
  | _ => true

def stopDiscovery (p : Provider) : Except Panic (Controller × Option String) :=
  match p.providerWatcher with
  | none =>
    .ok (c.call (.stopDiscovery p.name), some "failed to stop provider discovery. provider watcher does not exist")
  | some watcher =>
    if Call.stop watcher ∈ c.calls ∧ closesAgain p.providerClient then .error .closeOfClosedChannel
    else .ok ((c.call (.stopDiscovery p.name)).call (.stop watcher), none)

def handleAdd (api : Api) (providerDesc : SpaceProviderDesc) : Controller × Option String :=
  if providerDesc.phase = .ready ∧ c.providers.has providerDesc.name then (c, none)
  else
    match c.setProviderStatus api providerDesc .initializing with
    | (c, some err) => (c, some err)
    | (c, none) =>
      let providerDesc := { providerDesc with phase := .initializing }
      match c.createProvider api providerDesc with
      | (c, none, err) => (c, err)
      | (c, some provider, _) =>
        let c := c.call (.createNamespace (providerNS providerDesc.name))
        match errorUnless .alreadyExists (api.createNamespace (providerNS providerDesc.name)) with
        | some err => (c, some err)
        | none =>
          match c.startDiscovery api provider with
          | (c, some err) => (c, some err)
          | (c, none) => c.setProviderStatus api providerDesc .ready

/-- The spaces of the namespace, one after the other: managed ones are set to NotReady, others are deleted. The flag is
whether the namespace is left without any. -/
def clearSpaces (api : Api) (ns : String) : Controller → List Space → Controller × Bool
  | c, [] => (c, true)
  | c, space :: spaces =>
    if space.ns = ns then
      if space.spaceType = .managed then
        ((clearSpaces api ns (c.call (.updateSpace { space with phase := .notReady })) spaces).1, false)
      else
        let rest := clearSpaces api ns (c.call (.deleteSpace ns space.name)) spaces
        (rest.1, (api.deleteSpace ns space.name).isNone && rest.2)
    else clearSpaces api ns c spaces

/-- The first part of `handleDelete`. An error of `StopDiscovery` is only logged. -/
def stopProvider (providerName : String) : Except Panic Controller :=
  match c.providers.get providerName with
  | some provider => (c.stopDiscovery provider).map Prod.fst
  | none => .ok c

/-- `spaces` is the store of the informer on Spaces. -/
def handleDelete (api : Api) (spaces : List Space) (providerName : String) :
    Except Panic (Controller × Option String) :=
  let ns := providerNS providerName
  match c.stopProvider providerName with
  | .error panic => .error panic
  | .ok c =>
    match clearSpaces api ns c spaces with
    | (c, false) => .ok (c, none)
    | (c, true) =>
      .ok ({ c with providers := c.providers.delete providerName }.call (.deleteNamespace ns),
        errorUnless .notFound (api.deleteNamespace ns))

end Controller

/-- The reconciliation of a `SpaceProviderDesc` that is in the store of the informer, or of one that is not. -/
inductive Event where
  | found (api : Api) (providerDesc : SpaceProviderDesc)
  | gone (api : Api) (spaces : List Space) (providerName : String)

def Event.api : Event → Api
  | found api _ => api
  | gone api _ _ => api

namespace Controller

def reconcileSpaceProviderDesc (c : Controller) : Event → Except Panic (Controller × Option String)
  | .found api providerDesc => .ok (c.handleAdd api providerDesc)
  | .gone api spaces providerName => c.handleDelete api spaces providerName

def run (c : Controller) : List Event → Except Panic Controller
  | [] => .ok c
  | event :: events =>
    match c.reconcileSpaceProviderDesc event with
    | .error panic => .error panic
    | .ok (c, _) => run c events

end Controller

end KubeStellar.SpaceManager
