import MailgunRelay.Lib.Text
import MailgunRelay.Lib.Trace
import MailgunRelay.Lib.Wp
import MailgunRelay.Lib.Stages
import MailgunRelay.Lib.Assoc
import MailgunRelay.Lib.Packing
import MailgunRelay.Lib.Base64
import MailgunRelay.Lib.Checked
import MailgunRelay.Lib.Distinct
import MailgunRelay.Lib.Folding
import MailgunRelay.Lib.Sorted
import MailgunRelay.Lib.Result
import MailgunRelay.Lib.Run
import MailgunRelay.Lib.Gregorian
import MailgunRelay.Data
import MailgunRelay.External
import MailgunRelay.PyStr
import MailgunRelay.Headers
import MailgunRelay.Domain
import MailgunRelay.Address
import MailgunRelay.Address.Grammar
import MailgunRelay.Address.Lists
import MailgunRelay.Policy
import MailgunRelay.Auth
import MailgunRelay.Auth.Credentials
import MailgunRelay.Config
import MailgunRelay.Form
import MailgunRelay.Form.Beginnings
import MailgunRelay.Form.Scanner
import MailgunRelay.Form.Segments
import MailgunRelay.Percent
import MailgunRelay.Form.Limits
import MailgunRelay.Mime
import MailgunRelay.Mime.Head
import MailgunRelay.Mime.Words
import MailgunRelay.Mime.Reading
import MailgunRelay.Mime.Split
import MailgunRelay.Mime.Forward
import MailgunRelay.Mime.Dropped
import MailgunRelay.Mime.Found
import MailgunRelay.Mime.Forwardable
import MailgunRelay.Mime.Writing
import MailgunRelay.Mime.Injection
import MailgunRelay.Mime.Envelope
import MailgunRelay.Log
import MailgunRelay.Fields
import MailgunRelay.Pipeline
import MailgunRelay.Pipeline.Course
import MailgunRelay.Pipeline.Audit
import MailgunRelay.Pipeline.Authorised
import MailgunRelay.Python.Errors
import MailgunRelay.Python.Auth
import MailgunRelay.Python.Form
import MailgunRelay.Python.MimeBuild
import MailgunRelay.Mime.Structure
import MailgunRelay.Python.Routes
import MailgunRelay.Pipeline.FieldRules
import MailgunRelay.Pipeline.Verdicts
import MailgunRelay.Pipeline.Agreement
import MailgunRelay.Service
import MailgunRelay.Service.Moves
import MailgunRelay.Service.Sound
import MailgunRelay.Pipeline.Accepted
import MailgunRelay.Smtp.Connection
import MailgunRelay.Secrets
import MailgunRelay.Yaml
import MailgunRelay.Allowlist
import MailgunRelay.Smtp.Session
import MailgunRelay.Smtp.Sender
import MailgunRelay.Smtp.Steps
import MailgunRelay.Smtp.Order
import MailgunRelay.Smtp.Delivery
import MailgunRelay.Smtp.Faults
import MailgunRelay.Smtp.Cleanup
import MailgunRelay.Python.Smtplib
import MailgunRelay.Python.SmtpClient
import MailgunRelay.Smtp.Parity
import MailgunRelay.Yaml.Builder
import MailgunRelay.Yaml.Faults
import MailgunRelay.Secrets.Failures
import MailgunRelay.Secrets.Spec
import MailgunRelay.Yaml.Strings
import MailgunRelay.Secrets.Invariants
import MailgunRelay.Pipeline.Body
import MailgunRelay.Lib.Lines
import MailgunRelay.Mime.TextBody
import MailgunRelay.Lib.Reads
import MailgunRelay.Environment.Values
import MailgunRelay.Environment
import MailgunRelay.Environment.Canonical
import MailgunRelay.Lib.Canonical
import MailgunRelay.Python.Refusals
import MailgunRelay.Pipeline.Refusals
import MailgunRelay.Log.Timestamp
import MailgunRelay.Mime.LineBudget
import MailgunRelay.Environment.Integers
import MailgunRelay.Form.Written
import MailgunRelay.Mime.AddressHeader
import MailgunRelay.Lib.Pattern
import MailgunRelay.Http
import MailgunRelay.Http.Length
import MailgunRelay.Http.Quoting
import MailgunRelay.Http.Routes
import MailgunRelay.Python.BodyLimit
import MailgunRelay.Http.Redirects
import MailgunRelay.Lib.Progress
import MailgunRelay.Service.Progress
import MailgunRelay.Pipeline.Visible
import MailgunRelay.Yaml.Hashes
import MailgunRelay.Pipeline.Arrival
import MailgunRelay.Pipeline.Content
import MailgunRelay.Http.Served
import MailgunRelay.Smtp.Answered
import MailgunRelay.Smtp.Logged
import MailgunRelay.Yaml.Reasons
import MailgunRelay.Python.Secrets
import MailgunRelay.Secrets.Parity
import MailgunRelay.Mime.CustomHeaders
import MailgunRelay.Yaml.Timestamps
import MailgunRelay.Pipeline.Granted
