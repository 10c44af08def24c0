import Axis2C.AddrRoundTrip
import Axis2C.ArrayLists
import Axis2C.Base64
import Axis2C.BasicStream
import Axis2C.CallRuns
import Axis2C.DateTimeDates
import Axis2C.DateTimeZones
import Axis2C.Duration
import Axis2C.DurationGrammar
import Axis2C.DurationSerialize
import Axis2C.EngineMustUnderstand
import Axis2C.EngineReceive
import Axis2C.EngineResumeSend
import Axis2C.EngineSend
import Axis2C.GuththilaComments
import Axis2C.GuththilaNamespaces
import Axis2C.GuththilaReaders
import Axis2C.GuththilaReferences
import Axis2C.GuththilaStartTags
import Axis2C.GuththilaTagTokens
import Axis2C.GuththilaTermination
import Axis2C.GuththilaTokenPool
import Axis2C.HashIterateDelete
import Axis2C.HashMapLaws
import Axis2C.HashMerge
import Axis2C.HttpAcceptRecords
import Axis2C.HttpBodySend
import Axis2C.HttpChunkedReader
import Axis2C.HttpChunkedRoundTrip
import Axis2C.HttpClientHead
import Axis2C.HttpClientResponse
import Axis2C.HttpContentType
import Axis2C.HttpFrontEnds
import Axis2C.HttpGetParams
import Axis2C.HttpHeaderGroups
import Axis2C.HttpMtomSend
import Axis2C.HttpQueryParams
import Axis2C.HttpRequestBody
import Axis2C.HttpRequestHead
import Axis2C.HttpRequestReader
import Axis2C.JsonRoundTrip
import Axis2C.KeyedLists
import Axis2C.LinkedListBounds
import Axis2C.MimeMatches
import Axis2C.MimeSearch
import Axis2C.MimeSearchRuns
import Axis2C.NeethiMerge
import Axis2C.NeethiNormalize
import Axis2C.NeethiReferences
import Axis2C.NeethiSerialize
import Axis2C.OmBuilderDeferred
import Axis2C.OmBuilderDiscard
import Axis2C.OmBuilderPulls
import Axis2C.OmBuilderScopes
import Axis2C.OmChildIteration
import Axis2C.OmDetachNames
import Axis2C.OmDocumentSerialize
import Axis2C.OmElementNames
import Axis2C.OmEmptyElements
import Axis2C.OmNavigator
import Axis2C.OmShadowing
import Axis2C.PhaseDeployOrder
import Axis2C.PhaseEngageRuns
import Axis2C.PhaseOrdering
import Axis2C.PhaseSpecial
import Axis2C.PropertiesRoundTrip
import Axis2C.Qname
import Axis2C.RawMemory
import Axis2C.RestComponents
import Axis2C.RestDispatchRight
import Axis2C.RestRequests
import Axis2C.RestTemplateLoops
import Axis2C.RestTemplateMatch
import Axis2C.ServicesListing
import Axis2C.StringReplace
import Axis2C.UriDecompose
import Axis2C.UriResolve
import Axis2C.UriUnparse
import Axis2C.UrlEncode
import Axis2C.UrlParse
import Axis2C.Utf8Codec
import Axis2C.Utf8ErrorBuffer
import Axis2C.XPathPositions
import Axis2C.XPathRepeat
import Axis2C.XPathStack
import Axis2C.XPathTotal
