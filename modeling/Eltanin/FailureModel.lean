import Eltanin.ProtocolModel

/-!
# Failures of a launch

Every failure of `eltanin run` has an exit code.  A response of the agent is
classified by what it says; an exchange which gave no response at all counts
as an agent which is not available.
-/

namespace Eltanin.Cli

open Eltanin.Core Protocol

inductive ExitCode where
  | usage
  | agentUnavailable
  | agentError
  | governedContextFailed
  | authorizationLapsed
  | denied
  | profileUnresolved
  deriving DecidableEq, Repr

def ExitCode.code : ExitCode → UInt8
  | .usage => 64
  | .agentUnavailable => 69
  | .agentError => 70
  | .governedContextFailed => 74
  | .authorizationLapsed => 76
  | .denied => 77
  | .profileUnresolved => 78

inductive ClientError where
  | socketPathNotUtf8
  | connect (path reason : String)
  | io (reason : String)
  | protocol (reason : String)
  | requestIdMismatch (expected : RequestId) (got : Option RequestId)
  deriving DecidableEq, Repr

/-- The derived `Debug` of an optional request id. -/
def debugRequestId : Option RequestId → String
  | none => "None"
  | some requestId => "Some(RequestId(" ++ toString requestId.id ++ "))"

def ClientError.display : ClientError → String
  | .socketPathNotUtf8 => "ELTANIN_AGENT_SOCKET is set but not valid UTF-8"
  | .connect path reason =>
      "could not connect to the agent at " ++ path ++ ": " ++ reason
  | .io reason => "I/O error talking to the agent: " ++ reason
  | .protocol reason =>
      "the agent's response could not be decoded: " ++ reason
  | .requestIdMismatch expected got =>
      "the agent's response named request id " ++ debugRequestId got ++
        ", expected RequestId(" ++ toString expected.id ++ ")"

inductive LaunchFailure where
  | usage (detail : String)
  | profileUnresolved (detail : String)
  | agentUnavailable (detail : String)
  | agentError (code : ErrorCode)
  | denied (reason : DenialReason)
  | governedContextFailed (detail : String)
  | authorizationLapsed
  deriving DecidableEq, Repr

namespace LaunchFailure

def exitCode : LaunchFailure → ExitCode
  | .usage _ => .usage
  | .profileUnresolved _ => .profileUnresolved
  | .agentUnavailable _ => .agentUnavailable
  | .agentError _ => .agentError
  | .denied _ => .denied
  | .governedContextFailed _ => .governedContextFailed
  | .authorizationLapsed => .authorizationLapsed

/-- `From<ClientError>`. -/
def ofClientError (error : ClientError) : LaunchFailure :=
  .agentUnavailable error.display

end LaunchFailure

def classifyResponse : AgentResponse → Option LaunchFailure
  | .leaseGranted _ => none
  | .leaseDenied reason => some (.denied reason)
  | .error code => some (.agentError code)
  | .leaseReleased _ => some (.agentError .internal)
  | .status _ => some (.agentError .internal)

/-- What `request_initial_lease` makes of an exchange. -/
def initialLease :
    Except ClientError AgentResponse → Except LaunchFailure LeaseView
  | .error error => .error (.ofClientError error)
  | .ok (.leaseGranted lease) => .ok lease
  | .ok other =>
      .error ((classifyResponse other).getD (.agentUnavailable
        "the agent's response could not be classified"))

end Eltanin.Cli
