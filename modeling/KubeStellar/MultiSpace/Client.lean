import KubeStellar.Library.Strings
import KubeStellar.SpaceManager.Provider

/-! # The multi-space client

`space-framework/pkg/msclientlib`: a configuration for a Space is given by name or by reference. Both are kept in
maps, which a controller updates; a configuration that is not there is made from what the API server has.
-/

namespace KubeStellar.MultiSpace

open SpaceManager (SecretReference SpacePhase)

structure SpaceStatus where
  phase : SpacePhase
  inClusterSecretRef : Option SecretReference
  externalSecretRef : Option SecretReference
deriving DecidableEq

structure Space where
  ns : String
  name : String
  annotations : GoMap String String
  status : SpaceStatus
  ns_valid : '/' ∉ ns.toList
  name_valid : '/' ∉ name.toList

/-- What the `kubeconfig` of a secret says, and the key of the Space for which it was read. -/
structure RestConfig where
  space : String
  kubeconfig : String
deriving DecidableEq

/-- The order of a range over a map, and the reading of the `kubeconfig` of a secret, which can fail. -/
structure Env where
  ord : RangeOrder
  secrets : SecretReference → Except String String

def defaultProviderNs : String := "spaceprovider-default"

def refAnnotationKey : String := "space-framework.io/service-provider-reference"

def namespaceKey (name ns : String) : String := ns ++ "/" ++ name

namespace Space

variable (space : Space)

def key : String := namespaceKey space.name space.ns

def isReady : Bool := space.status.phase = .ready

def ref : Option String := space.annotations.get refAnnotationKey

end Space

structure MultiSpaceClient where
  configs : GoMap String RestConfig
  refToSpace : GoMap String String
  externalAccess : Bool

namespace MultiSpaceClient

variable (mcc : MultiSpaceClient)

def secretRef (space : Space) : Except String SecretReference :=
  if mcc.externalAccess then
    match space.status.externalSecretRef with
    | none => .error ("missing ExternalSecretRef spec fileld for space: " ++ space.name)
    | some secretRef => .ok secretRef
  else
    match space.status.inClusterSecretRef with
    | none => .error ("missing InClusterSecretRef spec fileld for space: " ++ space.name)
    | some secretRef => .ok secretRef

variable (env : Env)

def getRestConfigFromSecret (space : Space) : Except String RestConfig :=
  match mcc.secretRef space with
  | .error err => .error err
  | .ok secretRef => (env.secrets secretRef).map fun kubeconfig => ⟨space.key, kubeconfig⟩

variable (spaces : GoMap String Space)

/-- `spaces` is what the API server has. The configuration is stored by the bare name. -/
def getFromServer (name ns : String) : MultiSpaceClient × Except String RestConfig :=
  match spaces.get (namespaceKey name ns) with
  | none => (mcc, .error ("spaces.space.kubestellar.io \"" ++ name ++ "\" not found"))
  | some space =>
    if space.isReady then
      match mcc.getRestConfigFromSecret env space with
      | .error err => (mcc, .error err)
      | .ok restConfig => ({ mcc with configs := mcc.configs.put space.name restConfig }, .ok restConfig)
    else (mcc, .error "space is not ready")

def configForSpace (name providerNS : String) : MultiSpaceClient × Except String RestConfig :=
  let ns := if providerNS = "" then defaultProviderNs else providerNS
  match mcc.configs.get (namespaceKey name ns) with
  | some config => (mcc, .ok config)
  | none => mcc.getFromServer env spaces name ns

def handleDelete (spaceKey : String) : MultiSpaceClient :=
  let refToSpace :=
    match (env.ord.visit mcc.refToSpace).find? fun e => e.2 = spaceKey with
    | none => mcc.refToSpace
    | some e => mcc.refToSpace.delete e.1
  { mcc with refToSpace, configs := mcc.configs.delete spaceKey }

def cacheSpaceReference (space : Space) (spaceKey : String) : MultiSpaceClient :=
  match space.ref with
  | none => mcc
  | some ref => { mcc with refToSpace := mcc.refToSpace.put ref spaceKey }

def handleAdd (space : Space) (spaceKey : String) : MultiSpaceClient :=
  if space.isReady then
    let mcc := mcc.cacheSpaceReference space spaceKey
    match mcc.getRestConfigFromSecret env space with
    | .error _ => mcc
    | .ok config => { mcc with configs := mcc.configs.put spaceKey config }
  else mcc.handleDelete env spaceKey

def process (env : Env) (spaces : GoMap String Space) (key : String) : MultiSpaceClient :=
  match spaces.get key with
  | none => mcc.handleDelete env key
  | some space => mcc.handleAdd env space key

end MultiSpaceClient

def enqueues (oldInfo : Option Space) (newInfo : Space) : Bool :=
  match oldInfo with
  | none => true
  | some oldInfo => oldInfo.status ≠ newInfo.status

structure State where
  mcc : MultiSpaceClient
  spaces : GoMap String Space

/-- A call of `ConfigForSpace`. -/
structure Request where
  name : String
  providerNS : String

def Request.key (request : Request) : String :=
  namespaceKey request.name (if request.providerNS = "" then defaultProviderNs else request.providerNS)

/-- A change of a Space comes with the calls that are made before the resulting item is processed. -/
inductive Event where
  | put (space : Space) (requests : List Request)
  | delete (key : String) (requests : List Request)
  | configForSpace (request : Request)

namespace State

variable (state : State)

def start (externalAccess : Bool) : State := ⟨⟨∅, ∅, externalAccess⟩, ∅⟩

def request (env : Env) (state : State) (request : Request) : State :=
  { state with mcc := (state.mcc.configForSpace env state.spaces request.name request.providerNS).1 }

def process (env : Env) (key : String) : State := { state with mcc := state.mcc.process env state.spaces key }

def step (input : Env × Event) : State :=
  match input.2 with
  | .put space requests =>
    let changed := requests.foldl (request input.1) { state with spaces := state.spaces.put space.key space }
    if enqueues (state.spaces.get space.key) space then changed.process input.1 space.key else changed
  | .delete key requests =>
    let changed := requests.foldl (request input.1) { state with spaces := state.spaces.delete key }
    if state.spaces.has key then changed.process input.1 key else changed
  | .configForSpace request => state.request input.1 request

end State

end KubeStellar.MultiSpace
