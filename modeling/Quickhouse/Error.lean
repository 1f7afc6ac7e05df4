/-!
# Errors
-/

namespace Quickhouse

inductive EtlError where
  | config (message : String)
  | decode (message : String)
  | other (message : String)
  | internal (message : String)
  | arrow (message : String)
  | clickhouse (message : String)
  /-- An error of the PostgreSQL client: its text, and whether a new attempt may pass. -/
  | postgres (message : String) (transient : Bool)
  /-- Another error, and where it happened. -/
  | context (context : String) (source : EtlError)
  deriving DecidableEq, Repr

/-- Whether reading the source again may help. -/
def EtlError.isTransientSource : EtlError → Bool
  | .postgres _ transient => transient
  | .context _ source => source.isTransientSource
  | _ => false

def EtlError.display : EtlError → String
  | .config message => "configuration error: " ++ message
  | .decode message => "decode error: " ++ message
  | .other message => message
  | .internal message =>
    "internal error (this indicates a quickhouse bug, not a problem with your data or " ++
      "config — please file an issue at https://github.com/mmirzafahmi/quickhouse/issues " ++
      "including this message): " ++ message
  | .arrow message => "arrow error: " ++ message
  | .clickhouse message => "clickhouse error: " ++ message
  | .postgres message _ => "postgres error: " ++ message
  | .context place source => place ++ ": " ++ source.display

end Quickhouse
