import PoolWatch.Http.Url
import PoolWatch.Text.Base64
/-!
# Requests

The text that asks an endpoint for its target.
-/

namespace PoolWatch.Http

def acceptedContent : String := "application/json"

namespace Endpoint

def requestLine (e : Endpoint) : String := "GET " ++ e.target ++ " HTTP/1.1"

def loginLine (login : List UInt8) : String :=
  "authorization: Basic " ++ String.ofList (Text.base64 login)

def request (e : Endpoint) : String :=
  "\r\n".intercalate
    (e.requestLine :: (e.login.map loginLine).toList ++
      ["accept: " ++ acceptedContent, "host: " ++ e.authority, "connection: close", "", ""])

end Endpoint

end PoolWatch.Http
